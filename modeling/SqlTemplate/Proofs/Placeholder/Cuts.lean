import SqlTemplate.Proofs.Placeholder.Segmentation
/-!
The segments of a text that is put together from pieces.

A segment is as long as it can be, so the segments of a whole are those of its pieces only where the
pieces end between segments. What is proved:
  1. `texts_segments`: the segments of a text put together are the text.
  2. `segment_of_append`: the first segment of a text stays the same when what follows it is cut off,
     however little of it is left.
  3. `mem_segments_colons`: colons in front of a text hide none of its placeholders.
  4. `placeholder_of_flatten`: a placeholder of the whole is a placeholder of one of the pieces, unless
     a piece ends inside it, or inside a quoted text, a comment or a placeholder before it (`Crosses`).
-/

namespace SqlTemplate

/-- The characters of segments. -/
def Segment.texts (segs : List Segment) : List Char := segs.flatMap Segment.text

@[simp] theorem Segment.texts_nil : Segment.texts [] = [] := rfl

@[simp] theorem Segment.texts_cons (g : Segment) (segs : List Segment) :
    Segment.texts (g :: segs) = g.text ++ Segment.texts segs := rfl

/-- In a text that consists of pieces and has the segments `segs` in front, a piece ends inside one
of these segments that is not a run of colons. -/
def Segment.Crosses (pieces : List (List Char)) (segs : List Segment) : Prop :=
  ∃ ps qs xs g ys, pieces = ps ++ qs ∧ segs = xs ++ g :: ys ∧ (∀ cs, g ≠ .colons cs) ∧
    (Segment.texts xs).length < ps.flatten.length ∧
    ps.flatten.length < (Segment.texts xs).length + g.text.length

theorem Segment.Crosses.append_right {pieces : List (List Char)} {segs : List Segment}
    (h : Segment.Crosses pieces segs) (more : List Segment) :
    Segment.Crosses pieces (segs ++ more) := by
  obtain ⟨ps, qs, xs, g, ys, hpieces, rfl, hinside⟩ := h
  exact ⟨ps, qs, xs, g, ys ++ more, hpieces, by simp, hinside⟩

theorem Segment.Crosses.cons_nil {pieces : List (List Char)} {segs : List Segment}
    (h : Segment.Crosses pieces segs) : Segment.Crosses ([] :: pieces) segs := by
  obtain ⟨ps, qs, xs, g, ys, rfl, hinside⟩ := h
  exact ⟨[] :: ps, qs, xs, g, ys, rfl, hinside⟩

namespace Placeholder

open Segment (texts Crosses)

/-! ## Segments and what follows them -/

theorem texts_segments (cs : List Char) : texts (segments cs) = cs := by
  fun_induction segments cs with
  | case1 => rfl
  | case2 c cs _ ih => rw [Segment.texts_cons, ih, text_segment]

/-- A segment stays one when what follows it is cut off somewhere. -/
theorem IsSegment.of_append {g : Segment} {a b : List Char} (h : IsSegment g (a ++ b)) :
    IsSegment g a := by
  have hhead (p : Char → Prop) (hp : ∀ c ∈ (a ++ b).head?, p c) : ∀ c ∈ a.head?, p c := by
    intro c hc
    exact hp c (by rw [List.head?_append, hc]; rfl)
  have hne {c : Char} (hc : (a ++ b).head? ≠ some c) : a.head? ≠ some c := by
    intro ha
    exact hc (by rw [List.head?_append, ha]; rfl)
  generalize hrest : a ++ b = rest at h hhead hne
  cases h with
  | quoted hq hs => exact .quoted hq hs
  | openQuoted hq hs =>
    rw [(List.append_eq_nil_iff.mp hrest).1]
    exact .openQuoted hq hs
  | lineComment hs hnext => exact .lineComment hs (hhead _ hnext)
  | blockComment first =>
    refine .blockComment fun before r heq => first before (r ++ b) ?_
    rw [← hrest, ← List.append_assoc, heq, List.append_assoc]
  | openBlockComment hs =>
    rw [(List.append_eq_nil_iff.mp hrest).1]
    exact .openBlockComment hs
  | colons hnext => exact .colons (hne hnext)
  | placeholder hc hrun => exact .placeholder hc ⟨hrun.all, hhead _ hrun.stops⟩
  | other hquote hhyphen hslash hcolon =>
    exact .other hquote (fun hc => hne (hhyphen hc)) (fun hc => hne (hslash hc))
      fun hc => hhead _ (hcolon hc)

theorem segment_of_append {c : Char} {cs b : List Char}
    (h : (segment c (cs ++ b)).1.text.length ≤ cs.length + 1) :
    (segment c cs).1 = (segment c (cs ++ b)).1 := by
  have hsegment := isSegment_segment c (cs ++ b)
  have htext := text_segment c (cs ++ b)
  -- It ends before the cut, so what is left of the text begins with what was left before the cut.
  obtain ⟨left, hleft⟩ : (segment c (cs ++ b)).1.text <+: c :: cs :=
    List.prefix_of_prefix_length_le ⟨_, htext⟩ (List.prefix_append (c :: cs) b) h
  have hrest : (segment c (cs ++ b)).2.1 = left ++ b := by
    rw [← List.cons_append, ← hleft, List.append_assoc] at htext
    exact List.append_cancel_left htext
  rw [hrest] at hsegment
  exact segment_of_isSegment hsegment.of_append hleft

/-! ## Colons and names -/

theorem head?_of_segment_colons {c : Char} {cs t : List Char} (h : (segment c cs).1 = .colons t) :
    (∃ k, t = List.replicate k ':') ∧ (segment c cs).2.1.head? ≠ some ':' := by
  have hsegment := isSegment_segment c cs
  rw [h] at hsegment
  generalize (segment c cs).2.1 = rest at hsegment ⊢
  cases hsegment with
  | colons hrest => exact ⟨⟨_, rfl⟩, hrest⟩

theorem segments_name {cs : List Char} (h : ∀ c ∈ cs, isNameRest c = true) (w : List Char) :
    segments (cs ++ w) = cs.map .other ++ segments w :=
  segments_plain (fun c hc => not_mem_marks (by decide) (h c hc)) w

/-- A placeholder stays one when colons are put in front of the text, unless the text begins with a
colon itself. -/
theorem mem_segments_colons {w name : List Char} (hw : w.head? ≠ some ':')
    (h : .placeholder name ∈ segments w) (k : Nat) :
    .placeholder name ∈ segments (List.replicate k ':' ++ w) := by
  rcases k with _ | _ | k
  · exact h
  · cases w with
    | nil => rw [segments] at h; cases h
    | cons c r =>
      have hc : c ≠ ':' := fun hc => hw (congrArg some hc)
      by_cases hname : isNameStart c = true
      · -- The name becomes a placeholder; its characters were segments of their own.
        have hsplit : c :: r = c :: r.takeWhile isNameRest ++ r.dropWhile isNameRest := by
          rw [List.cons_append, List.takeWhile_append_dropWhile]
        have hall : ∀ d ∈ c :: r.takeWhile isNameRest, isNameRest d = true := by
          intro d hd
          rcases List.mem_cons.mp hd with rfl | hd
          · simp [isNameRest, hname]
          · exact List.all_eq_true.mp List.all_takeWhile d hd
        have hcolon : segments (':' :: (c :: r.takeWhile isNameRest ++ r.dropWhile isNameRest)) =
            .placeholder (c :: r.takeWhile isNameRest) :: segments (r.dropWhile isNameRest) :=
          segments_of_isSegment (.placeholder hname (Text.longestRun_takeWhile isNameRest r))
        rw [hsplit, segments_name hall] at h
        rw [hsplit, Nat.zero_add, List.replicate_one, List.singleton_append, hcolon]
        exact List.mem_cons_of_mem _ ((List.mem_append.mp h).resolve_left (by simp))
      · have hother : IsSegment (.other ':') (c :: r) :=
          .other (by decide) (by simp) (by simp) fun _ d hd => by
            cases hd
            exact ⟨hc, by simpa using hname⟩
        have hcolon : segments (':' :: c :: r) = .other ':' :: segments (c :: r) :=
          segments_of_isSegment hother
        rw [Nat.zero_add, List.replicate_one, List.singleton_append, hcolon]
        exact List.mem_cons_of_mem _ h
  · have hcolons : segments (List.replicate (k + 2) ':' ++ w) =
        .colons (List.replicate (k + 2) ':') :: segments w := segments_of_isSegment (.colons hw)
    rw [hcolons]
    exact List.mem_cons_of_mem _ h

/-! ## Pieces -/

/-- The pieces of a text without its first `n` characters. -/
def cutOff : Nat → List (List Char) → List (List Char)
  | _, [] => []
  | n, p :: ps => if n < p.length then p.drop n :: ps else cutOff (n - p.length) ps

theorem flatten_cutOff (n : Nat) (pieces : List (List Char)) :
    (cutOff n pieces).flatten = pieces.flatten.drop n := by
  induction pieces generalizing n with
  | nil => simp [cutOff]
  | cons p ps ih =>
    rw [cutOff, List.flatten_cons]
    split
    · rename_i hn
      rw [List.flatten_cons, List.drop_append_of_le_length (Nat.le_of_lt hn)]
    · rename_i hn
      rw [ih, List.drop_append, List.drop_eq_nil_of_le (Nat.le_of_not_lt hn), List.nil_append]

theorem mem_of_mem_cutOff_zero {pieces : List (List Char)} {q : List Char}
    (h : q ∈ cutOff 0 pieces) : q ∈ pieces := by
  induction pieces with
  | nil => cases h
  | cons p ps ih =>
    rw [cutOff] at h
    split at h
    · exact h
    · rw [Nat.zero_sub] at h
      exact List.mem_cons_of_mem p (ih h)

/-- A piece that ends in what is left ends as far behind what is cut off. -/
theorem exists_of_cutOff_append {n : Nat} {pieces us vs : List (List Char)}
    (h : cutOff n pieces = us ++ vs) (hpos : 0 < us.flatten.length) :
    ∃ ps, pieces = ps ++ vs ∧ ps.flatten.length = n + us.flatten.length := by
  induction pieces generalizing n with
  | nil =>
    obtain ⟨rfl, _⟩ := List.nil_eq_append_iff.mp h
    cases hpos
  | cons p ps ih =>
    rw [cutOff] at h
    split at h
    · rename_i hn
      cases us with
      | nil => cases hpos
      | cons u us =>
        rw [List.cons_append, List.cons.injEq] at h
        obtain ⟨rfl, rfl⟩ := h
        refine ⟨p :: us, rfl, ?_⟩
        simp only [List.flatten_cons, List.length_append, List.length_drop]
        omega
    · rename_i hn
      obtain ⟨qs, rfl, hlength⟩ := ih h
      refine ⟨p :: qs, rfl, ?_⟩
      rw [List.flatten_cons, List.length_append, hlength]
      omega

theorem crosses_of_cutOff {pieces : List (List Char)} {g : Segment} {segs : List Segment}
    (h : Crosses (cutOff g.text.length pieces) segs) : Crosses pieces (g :: segs) := by
  obtain ⟨us, vs, xs, g', ys, hcut, rfl, hcolons, hlow, hhigh⟩ := h
  obtain ⟨ps, rfl, hlength⟩ := exists_of_cutOff_append hcut (by omega)
  refine ⟨ps, vs, g :: xs, g', ys, rfl, rfl, hcolons, ?_, ?_⟩ <;>
    rw [Segment.texts_cons, List.length_append] <;> omega

/-- The placeholders of what is left are among those of the pieces if a run of colons is cut off. -/
theorem mem_segments_of_cutOff_colons {n : Nat} {pieces : List (List Char)} {w : List Char}
    (h : pieces.flatten = List.replicate n ':' ++ w) (hw : w.head? ≠ some ':')
    {q name : List Char} (hq : q ∈ cutOff n pieces) (hname : .placeholder name ∈ segments q) :
    ∃ p ∈ pieces, .placeholder name ∈ segments p := by
  induction pieces generalizing n with
  | nil => cases hq
  | cons p ps ih =>
    rw [List.flatten_cons] at h
    rw [cutOff] at hq
    split at hq
    · rename_i hn
      rcases List.mem_cons.mp hq with rfl | hq
      · have hcolons := congrArg (List.take n) h
        rw [List.take_append_of_le_length (Nat.le_of_lt hn),
          List.take_left' List.length_replicate] at hcolons
        have hleft := congrArg (List.drop n) h
        rw [List.drop_append_of_le_length (Nat.le_of_lt hn),
          List.drop_left' List.length_replicate] at hleft
        have hhead : (p.drop n).head? ≠ some ':' := by
          intro hhead
          rw [← hleft, List.head?_append, hhead] at hw
          exact hw rfl
        refine ⟨p, List.mem_cons_self, ?_⟩
        rw [← List.take_append_drop n p, hcolons]
        exact mem_segments_colons hhead hname n
      · exact ⟨q, List.mem_cons_of_mem p hq, hname⟩
    · rename_i hn
      have hrest := congrArg (List.drop p.length) h
      rw [List.drop_left, List.drop_append_of_le_length (by simpa using hn),
        List.drop_replicate] at hrest
      obtain ⟨q', hq', hmem⟩ := ih hrest hq
      exact ⟨q', List.mem_cons_of_mem p hq', hmem⟩

/-- So they are if a segment is cut off that lies in the first piece. -/
theorem mem_segments_of_cutOff_segment {c : Char} {cs : List Char} {ps : List (List Char)}
    {g : Segment} (hg : (segment c cs).1 = g) (hlen : g.text.length ≤ cs.length + 1)
    {q name : List Char} (hq : q ∈ cutOff g.text.length ((c :: cs) :: ps))
    (hname : .placeholder name ∈ segments q) :
    ∃ p ∈ (c :: cs) :: ps, .placeholder name ∈ segments p := by
  rw [cutOff] at hq
  split at hq
  · have hdrop : (c :: cs).drop g.text.length = (segment c cs).2.1 := by
      rw [← text_segment c cs, hg, List.drop_left]
    rcases List.mem_cons.mp hq with rfl | hq
    · rw [hdrop] at hname
      refine ⟨c :: cs, List.mem_cons_self, ?_⟩
      rw [segments_cons]
      exact List.mem_cons_of_mem _ hname
    · exact ⟨q, List.mem_cons_of_mem _ hq, hname⟩
  · rw [Nat.sub_eq_zero_of_le (by simpa using hlen)] at hq
    exact ⟨q, List.mem_cons_of_mem _ (mem_of_mem_cutOff_zero hq), hname⟩

/-- The first segment of a text that consists of pieces: a piece ends inside it, or the pieces have
its placeholder and those of what is left. -/
theorem first_segment {pieces : List (List Char)} {g : Segment} {tail : List Segment}
    (h : segments pieces.flatten = g :: tail) :
    Crosses pieces [g] ∨
      segments (cutOff g.text.length pieces).flatten = tail ∧
        (∀ name, g = .placeholder name → ∃ p ∈ pieces, .placeholder name ∈ segments p) ∧
        ∀ q ∈ cutOff g.text.length pieces, ∀ name, .placeholder name ∈ segments q →
          ∃ p ∈ pieces, .placeholder name ∈ segments p := by
  induction pieces with
  | nil => rw [List.flatten_nil, segments] at h; cases h
  | cons p ps ih =>
    cases p with
    | nil =>
      rcases ih h with hcross | ⟨htail, hfirst, hleft⟩
      · exact .inl hcross.cons_nil
      · have hcut : cutOff g.text.length ([] :: ps) = cutOff g.text.length ps := by simp [cutOff]
        rw [hcut]
        refine .inr ⟨htail, fun name hname => ?_, fun q hq name hname => ?_⟩
        · obtain ⟨p, hp, hmem⟩ := hfirst name hname
          exact ⟨p, List.mem_cons_of_mem [] hp, hmem⟩
        · obtain ⟨p, hp, hmem⟩ := hleft q hq name hname
          exact ⟨p, List.mem_cons_of_mem [] hp, hmem⟩
    | cons c cs =>
      have hrest := text_segment c (cs ++ ps.flatten)
      rw [List.flatten_cons, List.cons_append, segments_cons, List.cons.injEq] at h
      obtain ⟨hg, htail⟩ := h
      rw [hg] at hrest
      have hcut : segments (cutOff g.text.length ((c :: cs) :: ps)).flatten = tail := by
        rw [flatten_cutOff, List.flatten_cons, List.cons_append, ← hrest, List.drop_left, htail]
      by_cases hlen : g.text.length ≤ cs.length + 1
      · -- The segment lies in the first piece, and what is left of the piece is segmented by itself.
        have hown : (segment c cs).1 = g := by
          rw [← hg] at hlen ⊢
          exact segment_of_append hlen
        refine .inr ⟨hcut, fun name hname => ⟨c :: cs, List.mem_cons_self, ?_⟩,
          fun q hq name hname => ?_⟩
        · rw [segments_cons, hown, hname]
          exact List.mem_cons_self
        · exact mem_segments_of_cutOff_segment hown hlen hq hname
      · by_cases hcolons : ∃ t, g = .colons t
        · -- The run may take in several pieces, but what is left of the last has no new placeholders.
          obtain ⟨t, rfl⟩ := hcolons
          obtain ⟨⟨k, rfl⟩, hhead⟩ := head?_of_segment_colons hg
          refine .inr ⟨hcut, fun name hname => ?_, fun q hq name hname => ?_⟩
          · cases hname
          · have hflatten : ((c :: cs) :: ps).flatten = List.replicate k ':' ++
                (segment c (cs ++ ps.flatten)).2.1 := hrest.symm
            rw [Segment.text, List.length_replicate] at hq
            exact mem_segments_of_cutOff_colons hflatten hhead hq hname
        · refine .inl ⟨[c :: cs], ps, [], g, [], rfl, rfl, fun t ht => hcolons ⟨t, ht⟩, ?_, ?_⟩
          · simp
          · simp only [List.flatten_cons, List.flatten_nil, List.append_nil, List.length_cons,
              Segment.texts_nil, List.length_nil]
            omega

/-- A placeholder of a text that consists of pieces is a placeholder of a piece, if no piece ends
inside it or inside a segment before it that is not a run of colons. -/
theorem placeholder_of_flatten {pieces : List (List Char)} {before after : List Segment}
    {name : List Char} (h : segments pieces.flatten = before ++ .placeholder name :: after) :
    (∃ p ∈ pieces, .placeholder name ∈ segments p) ∨
      Crosses pieces (before ++ [.placeholder name]) := by
  -- Segment by segment, each time with the pieces of what is left of the text.
  induction before generalizing pieces with
  | nil =>
    rcases first_segment h with hcross | ⟨_, hfirst, _⟩
    · exact .inr hcross
    · exact .inl (hfirst name rfl)
  | cons g before ih =>
    rcases first_segment h with hcross | ⟨htail, _, hleft⟩
    · exact .inr (hcross.append_right (before ++ [.placeholder name]))
    · rcases ih htail with ⟨q, hq, hmem⟩ | hcross
      · exact .inl (hleft q hq name hmem)
      · exact .inr (crosses_of_cutOff hcross)

end Placeholder

end SqlTemplate
