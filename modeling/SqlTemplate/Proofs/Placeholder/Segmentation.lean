import SqlTemplate.Placeholder
/-!
The segments of a text, apart from how they are found.

`IsSegment` says what each kind of segment is and where it ends, `Splits` that a text is made of
segments from left to right. What is proved:
  1. `text_segment`: what is taken off in front of a text and what is left are the text.
  2. `isSegment_segment`: what is taken off is a segment in front of the rest.
  3. `segment_of_isSegment`: a segment that stands in front of a text is what is taken off, so no two
     segments stand there.
  4. `splits_iff`: a text splits into its segments and in no other way.
  5. `scan_plain_append`, `scan_placeholder_append`: so what stands in front of a text is read by itself
     if it has no mark, or is a placeholder that ends there.
  6. `scan_splits`: the names that are found in a text are those of its placeholders.
-/

namespace SqlTemplate

namespace Placeholder

open Condition (run)
open Text (LongestRun longestRun_ne)

/-! ## The text of segments -/

/-- A quoted text ends with the next quote, if there is one. -/
theorem quotedFrom_fst (quote : Char) (cs : List Char) : (quotedFrom quote cs).1 =
    .quoted (quote :: (cs.takeWhile (· != quote) ++ (cs.dropWhile (· != quote)).take 1)) := by
  unfold quotedFrom
  simp only [run]
  split <;> rename_i hrest <;> simp only [Prod.mk.injEq, Subtype.mk.injEq] at hrest <;>
    rw [hrest.1, hrest.2] <;> simp

theorem quotedFrom_snd (quote : Char) (cs : List Char) :
    (quotedFrom quote cs).2.1 = (cs.dropWhile (· != quote)).drop 1 := by
  unfold quotedFrom
  simp only [run]
  split <;> rename_i hrest <;> simp only [Prod.mk.injEq, Subtype.mk.injEq] at hrest <;>
    rw [hrest.2] <;> rfl

theorem text_quotedFrom (quote : Char) (cs : List Char) :
    (quotedFrom quote cs).1.text ++ (quotedFrom quote cs).2.1 = quote :: cs := by
  rw [quotedFrom_fst, quotedFrom_snd, Segment.text, List.cons_append, List.append_assoc,
    List.take_append_drop, List.takeWhile_append_dropWhile]

theorem text_hyphenFrom (cs : List Char) :
    (hyphenFrom cs).1.text ++ (hyphenFrom cs).2.1 = '-' :: cs := by
  unfold hyphenFrom
  split
  · simp [run, Segment.text]
  · rfl

theorem slashFrom_of_cutAt? {cs before rest : List Char}
    (h : Text.cutAt? ['*', '/'] cs = some (before, rest)) :
    (slashFrom ('*' :: cs)).1 = .blockComment ('/' :: '*' :: before ++ ['*', '/']) := by
  simp only [slashFrom]
  split <;> rename_i h' <;> rw [h] at h' <;> cases h'
  rfl

theorem slashFrom_of_open {cs : List Char} (h : Text.cutAt? ['*', '/'] cs = none) :
    (slashFrom ('*' :: cs)).1 = .blockComment ('/' :: '*' :: cs) := by
  simp only [slashFrom]
  split
  · rename_i h'
    rw [h] at h'
    cases h'
  · rfl

theorem text_slashFrom (cs : List Char) :
    (slashFrom cs).1.text ++ (slashFrom cs).2.1 = '/' :: cs := by
  unfold slashFrom
  split
  · split
    · rename_i h
      simp [Segment.text, Text.append_of_cutAt? h]
    · simp [Segment.text]
  · rfl

theorem colonFrom_cons_fst (c : Char) (cs : List Char) : (colonFrom (c :: cs)).1 =
    if c = ':' then .colons (':' :: ':' :: cs.takeWhile (· == ':'))
    else if isNameStart c then .placeholder (c :: cs.takeWhile isNameRest) else .other ':' := by
  simp only [colonFrom, run]
  split
  · rfl
  · split <;> rfl

theorem text_colonFrom (cs : List Char) :
    (colonFrom cs).1.text ++ (colonFrom cs).2.1 = ':' :: cs := by
  unfold colonFrom
  split
  · rfl
  · split
    · rename_i h
      simp [run, Segment.text, h]
    · split
      · simp [run, Segment.text]
      · rfl

theorem text_segment (c : Char) (cs : List Char) :
    (segment c cs).1.text ++ (segment c cs).2.1 = c :: cs := by
  unfold segment
  split
  · exact text_quotedFrom c cs
  · split
    · rename_i h
      rw [h, text_hyphenFrom]
    · split
      · rename_i h
        rw [h, text_slashFrom]
      · split
        · rename_i h
          rw [h, text_colonFrom]
        · rfl

/-! ## What a segment is -/

def endMark : List Char := ['*', '/']

/-- The segment stands in front of `rest`:
  - a quoted text, from its quote up to the next one of the kind or, without one, to the end;
  - a comment from two hyphens on, up to the end of the line or of the text;
  - a comment from a slash and an asterisk on, up to the first end mark behind them or to the end;
  - two or more colons, of which no more follow;
  - a colon and a name that goes on as far as it can;
  - a character with which none of these begins. -/
inductive IsSegment : Segment → List Char → Prop
  | quoted {q : Char} {s rest : List Char} (hq : q = '\x27' ∨ q = '\x22') (hs : q ∉ s) :
      IsSegment (.quoted (q :: (s ++ [q]))) rest
  | openQuoted {q : Char} {s : List Char} (hq : q = '\x27' ∨ q = '\x22') (hs : q ∉ s) :
      IsSegment (.quoted (q :: s)) []
  | lineComment {s rest : List Char} (hs : '\n' ∉ s) (hrest : ∀ c ∈ rest.head?, c = '\n') :
      IsSegment (.lineComment ('-' :: '-' :: s)) rest
  | blockComment {s rest : List Char}
      (first : ∀ b r, s ++ endMark ++ rest = b ++ endMark ++ r → s.length ≤ b.length) :
      IsSegment (.blockComment ('/' :: '*' :: (s ++ endMark))) rest
  | openBlockComment {s : List Char} (hs : ∀ b r, s ≠ b ++ endMark ++ r) :
      IsSegment (.blockComment ('/' :: '*' :: s)) []
  | colons {k : Nat} {rest : List Char} (hrest : rest.head? ≠ some ':') :
      IsSegment (.colons (List.replicate (k + 2) ':')) rest
  | placeholder {c : Char} {more rest : List Char} (hc : isNameStart c = true)
      (hrun : LongestRun isNameRest more rest) : IsSegment (.placeholder (c :: more)) rest
  | other {c : Char} {rest : List Char} (hquote : c ≠ '\x27' ∧ c ≠ '\x22')
      (hhyphen : c = '-' → rest.head? ≠ some '-') (hslash : c = '/' → rest.head? ≠ some '*')
      (hcolon : c = ':' → ∀ d ∈ rest.head?, d ≠ ':' ∧ isNameStart d = false) :
      IsSegment (.other c) rest

/-- The text is made of the segments, from left to right. -/
inductive Splits : List Char → List Segment → Prop
  | done : Splits [] []
  | segment {g : Segment} {rest : List Char} {gs : List Segment} (hg : IsSegment g rest)
      (h : Splits rest gs) : Splits (g.text ++ rest) (g :: gs)

/-! ## What is taken off is a segment -/

theorem isSegment_quotedFrom {q : Char} (hq : q = '\x27' ∨ q = '\x22') (cs : List Char) :
    IsSegment (quotedFrom q cs).1 (quotedFrom q cs).2.1 := by
  have hs : q ∉ cs.takeWhile (· != q) := fun hmem => by
    have hne := List.all_eq_true.mp List.all_takeWhile q hmem
    simp at hne
  rw [quotedFrom_fst, quotedFrom_snd]
  cases hrest : cs.dropWhile (· != q) with
  | nil =>
    rw [List.take_nil, List.append_nil]
    exact .openQuoted hq hs
  | cons d r =>
    have hd := List.head?_dropWhile_not (· != q) cs
    rw [hrest] at hd
    have hdq : d = q := by simpa using hd
    rw [hdq]
    exact .quoted hq hs

theorem isSegment_hyphenFrom (cs : List Char) :
    IsSegment (hyphenFrom cs).1 (hyphenFrom cs).2.1 := by
  unfold hyphenFrom
  split
  · rename_i r
    have hrun := Text.longestRun_takeWhile (· != '\n') r
    refine .lineComment (fun hmem => ?_) fun c hc => ?_
    · simpa using List.all_eq_true.mp hrun.all '\n' hmem
    · simpa using hrun.stops c hc
  · rename_i hne
    refine .other (by decide) (fun _ hhead => ?_) (by simp) (by simp)
    obtain ⟨r, rfl⟩ := List.head?_eq_some_iff.mp hhead
    exact hne r rfl

theorem isSegment_slashFrom (cs : List Char) : IsSegment (slashFrom cs).1 (slashFrom cs).2.1 := by
  unfold slashFrom
  split
  · rename_i r
    split
    · rename_i before rest hcut
      have hr := Text.append_of_cutAt? hcut
      refine .blockComment fun b r' heq => ?_
      exact Text.first_of_cutAt? hcut b r' (hr.trans heq)
    · rename_i hcut
      exact .openBlockComment (Text.cutAt?_eq_none.mp hcut)
  · rename_i hne
    refine .other (by decide) (by simp) (fun _ hhead => ?_) (by simp)
    obtain ⟨r, rfl⟩ := List.head?_eq_some_iff.mp hhead
    exact hne r rfl

theorem isSegment_colonFrom (cs : List Char) : IsSegment (colonFrom cs).1 (colonFrom cs).2.1 := by
  cases cs with
  | nil => exact .other (by decide) (by simp) (by simp) fun _ => nofun
  | cons c r =>
    simp only [colonFrom, run]
    split
    · have hrun := Text.longestRun_takeWhile (· == ':') r
      have hall : r.takeWhile (· == ':') = List.replicate (r.takeWhile (· == ':')).length ':' :=
        List.eq_replicate_iff.mpr ⟨rfl, fun e he => by simpa using List.all_eq_true.mp hrun.all e he⟩
      rw [hall, ← List.replicate_succ, ← List.replicate_succ]
      exact .colons fun hhead => by simpa using hrun.stops ':' hhead
    · rename_i hc
      split
      · rename_i hstart
        exact .placeholder hstart (Text.longestRun_takeWhile isNameRest r)
      · rename_i hstart
        refine .other (by decide) (by simp) (by simp) fun _ d hd => ?_
        cases hd
        exact ⟨hc, by simpa using hstart⟩

theorem isSegment_segment (c : Char) (cs : List Char) :
    IsSegment (segment c cs).1 (segment c cs).2.1 := by
  unfold segment
  split
  · rename_i hq
    exact isSegment_quotedFrom (by simpa using hq) cs
  · rename_i hq
    split
    · exact isSegment_hyphenFrom cs
    · rename_i hhyphen
      split
      · exact isSegment_slashFrom cs
      · rename_i hslash
        split
        · exact isSegment_colonFrom cs
        · rename_i hcolon
          exact .other (by simpa using hq) (absurd · hhyphen) (absurd · hslash) (absurd · hcolon)

/-! ## A segment is what is taken off -/

theorem segment_quote {q : Char} (hq : q = '\x27' ∨ q = '\x22') (cs : List Char) :
    segment q cs = quotedFrom q cs := if_pos (by simpa using hq)

theorem hyphenFrom_other {cs : List Char} (h : cs.head? ≠ some '-') :
    (hyphenFrom cs).1 = .other '-' := by
  unfold hyphenFrom
  split
  · exact absurd rfl h
  · rfl

theorem slashFrom_other {cs : List Char} (h : cs.head? ≠ some '*') :
    (slashFrom cs).1 = .other '/' := by
  unfold slashFrom
  split
  · exact absurd rfl h
  · rfl

theorem colonFrom_other {cs : List Char}
    (h : ∀ d ∈ cs.head?, d ≠ ':' ∧ isNameStart d = false) : (colonFrom cs).1 = .other ':' := by
  cases cs with
  | nil => rfl
  | cons d r =>
    obtain ⟨hcolon, hstart⟩ := h d rfl
    rw [colonFrom_cons_fst, if_neg hcolon, if_neg (by rw [hstart]; decide)]

theorem segment_of_isSegment {g : Segment} {rest : List Char} (h : IsSegment g rest) {c : Char}
    {cs : List Char} (hcs : g.text ++ rest = c :: cs) : (segment c cs).1 = g := by
  cases h with
  | @quoted q s _ hq hs =>
    have hrun : LongestRun (· != q) s (q :: rest) :=
      longestRun_ne hs fun d hd => (Option.some.inj hd).symm
    obtain ⟨rfl, rfl⟩ := List.cons.inj hcs
    show (segment q (s ++ [q] ++ rest)).1 = _
    rw [segment_quote hq, quotedFrom_fst, List.append_assoc, List.singleton_append,
      hrun.takeWhile_append, hrun.dropWhile_append]
    rfl
  | @openQuoted q s hq hs =>
    have hrun : LongestRun (· != q) s [] := longestRun_ne hs nofun
    obtain ⟨rfl, rfl⟩ := List.cons.inj hcs
    show (segment q (s ++ [])).1 = _
    rw [segment_quote hq, quotedFrom_fst, hrun.takeWhile_append, hrun.dropWhile_append,
      List.take_nil, List.append_nil]
  | @lineComment s _ hs hrest =>
    have hrun : LongestRun (· != '\n') s rest := longestRun_ne hs hrest
    obtain ⟨rfl, rfl⟩ := List.cons.inj hcs
    show Segment.lineComment ('-' :: '-' :: (s ++ rest).takeWhile (· != '\n')) = _
    rw [hrun.takeWhile_append]
  | @blockComment s _ first =>
    have hcut := Text.cutAt?_of_first first
    obtain ⟨rfl, rfl⟩ := List.cons.inj hcs
    show (slashFrom ('*' :: (s ++ endMark ++ rest))).1 = _
    rw [slashFrom_of_cutAt? hcut]
    rfl
  | @openBlockComment s hs =>
    obtain ⟨rfl, rfl⟩ := List.cons.inj hcs
    show (slashFrom ('*' :: (s ++ []))).1 = _
    rw [List.append_nil, slashFrom_of_open (Text.cutAt?_eq_none.mpr hs)]
  | @colons k _ hrest =>
    have hrun : LongestRun (· == ':') (List.replicate k ':') rest :=
      ⟨by simp, fun d hd => by
        rw [beq_eq_false_iff_ne]
        rintro rfl
        exact hrest hd⟩
    obtain ⟨rfl, rfl⟩ := List.cons.inj hcs
    show (colonFrom (':' :: (List.replicate k ':' ++ rest))).1 = _
    rw [colonFrom_cons_fst, if_pos rfl, hrun.takeWhile_append]
    rfl
  | @placeholder d more _ hd hrun =>
    have hcolon : d ≠ ':' := by
      rintro rfl
      cases hd
    obtain ⟨rfl, rfl⟩ := List.cons.inj hcs
    show (colonFrom (d :: (more ++ rest))).1 = _
    rw [colonFrom_cons_fst, if_neg hcolon, if_pos hd, hrun.takeWhile_append]
  | @other d _ hquote hhyphen hslash hcolon =>
    obtain ⟨rfl, rfl⟩ := List.cons.inj hcs
    show (segment d rest).1 = _
    unfold segment
    rw [if_neg (by simpa using hquote)]
    split
    · rename_i hd
      rw [hd, hyphenFrom_other (hhyphen hd)]
    · split
      · rename_i hd
        rw [hd, slashFrom_other (hslash hd)]
      · split
        · rename_i hd
          rw [hd, colonFrom_other (hcolon hd)]
        · rfl

/-! ## The whole text -/

theorem segments_cons (c : Char) (cs : List Char) :
    segments (c :: cs) = (segment c cs).1 :: segments (segment c cs).2.1 := by
  rw [segments]

theorem splits_segments (cs : List Char) : Splits cs (segments cs) := by
  fun_induction segments cs with
  | case1 => exact .done
  | case2 c cs _ ih =>
    have h := Splits.segment (isSegment_segment c cs) ih
    rwa [text_segment] at h

theorem text_ne_nil {g : Segment} {rest : List Char} (h : IsSegment g rest) : g.text ≠ [] := by
  cases h <;> simp [Segment.text]

theorem segments_of_splits {cs : List Char} {gs : List Segment} (h : Splits cs gs) :
    segments cs = gs := by
  induction h with
  | done => rw [segments]
  | @segment g rest gs hg _ ih =>
    obtain ⟨c, t, htext⟩ := List.exists_cons_of_ne_nil (text_ne_nil hg)
    have hcs : g.text ++ rest = c :: (t ++ rest) := by rw [htext, List.cons_append]
    have hfirst := segment_of_isSegment hg hcs
    -- The text of the segment is the same, so what follows it is the same too.
    have hrest : (segment c (t ++ rest)).2.1 = rest := by
      have htexts := text_segment c (t ++ rest)
      rw [hfirst, ← hcs] at htexts
      exact List.append_cancel_left htexts
    rw [hcs, segments_cons, hfirst, hrest, ih]

theorem splits_iff {cs : List Char} {gs : List Segment} : Splits cs gs ↔ gs = segments cs := by
  constructor
  · intro h
    exact (segments_of_splits h).symm
  · intro h
    rw [h]
    exact splits_segments cs

theorem segments_of_isSegment {g : Segment} {rest : List Char} (h : IsSegment g rest) :
    segments (g.text ++ rest) = g :: segments rest :=
  segments_of_splits (.segment h (splits_segments rest))

/-- The characters with which segments of more than one character begin. -/
def marks : List Char := ['\x27', '\x22', '-', '/', ':']

theorem not_mem_marks {p : Char → Bool} (hp : marks.any p = false) {c : Char} (hc : p c = true) :
    c ∉ marks :=
  fun hmem => List.any_eq_false.mp hp c hmem hc

theorem isSegment_plain {c : Char} (hc : c ∉ marks) (rest : List Char) :
    IsSegment (.other c) rest := by
  simp only [marks, List.mem_cons, List.not_mem_nil, or_false, not_or] at hc
  obtain ⟨hsingle, hdouble, hhyphen, hslash, hcolon⟩ := hc
  exact .other ⟨hsingle, hdouble⟩ (absurd · hhyphen) (absurd · hslash) (absurd · hcolon)

theorem segments_plain {cs : List Char} (h : ∀ c ∈ cs, c ∉ marks) (w : List Char) :
    segments (cs ++ w) = cs.map .other ++ segments w := by
  induction cs with
  | nil => rfl
  | cons c cs ih =>
    have hfirst : segments (c :: (cs ++ w)) = .other c :: segments (cs ++ w) :=
      segments_of_isSegment (isSegment_plain (h c List.mem_cons_self) _)
    rw [List.cons_append, hfirst, ih fun d hd => h d (List.mem_cons_of_mem c hd), List.map_cons,
      List.cons_append]

theorem segments_placeholder {name rest : List Char} (hname : isName name = true)
    (hrest : ∀ c ∈ rest.head?, isNameRest c = false) :
    segments (':' :: (name ++ rest)) = .placeholder name :: segments rest := by
  cases name with
  | nil => cases hname
  | cons c more =>
    rw [isName, Bool.and_eq_true] at hname
    exact segments_of_isSegment (.placeholder hname.1 ⟨hname.2, hrest⟩)

theorem isName_of_isSegment {name rest : List Char} (h : IsSegment (.placeholder name) rest) :
    isName name = true := by
  cases h with
  | placeholder hc hrun => rw [isName, hc, hrun.all, Bool.and_self]

theorem isName_of_splits {cs name : List Char} {gs : List Segment} (h : Splits cs gs)
    (hmem : .placeholder name ∈ gs) : isName name = true := by
  induction h with
  | done => cases hmem
  | segment hg _ ih =>
    rcases List.mem_cons.mp hmem with heq | hmem
    · rw [← heq] at hg
      exact isName_of_isSegment hg
    · exact ih hmem

theorem mem_scan {cs : List Char} {name : String} :
    name ∈ scan cs ↔ ∃ n, .placeholder n ∈ segments cs ∧ name = String.ofList n := by
  simp only [scan, List.mem_map, List.mem_filterMap]
  constructor
  · rintro ⟨n, ⟨g, hg, hn⟩, rfl⟩
    cases g <;> cases hn
    exact ⟨n, hg, rfl⟩
  · rintro ⟨n, hn, rfl⟩
    exact ⟨n, ⟨_, hn, rfl⟩, rfl⟩

/-- Characters that are no marks have no placeholders, and none begins or ends with them. -/
theorem scan_plain_append {cs : List Char} (h : ∀ c ∈ cs, c ∉ marks) (w : List Char) :
    scan (cs ++ w) = scan w := by
  have hnone : (cs.map Segment.other).filterMap Segment.name? = [] := by
    rw [List.filterMap_map]
    exact List.filterMap_eq_nil_iff.mpr fun _ _ => rfl
  rw [scan, segments_plain h, List.filterMap_append, hnone, List.nil_append, scan]

theorem scan_placeholder_append {name : String} {rest : List Char}
    (hname : isName name.toList = true) (hrest : ∀ c ∈ rest.head?, isNameRest c = false) :
    scan (':' :: (name.toList ++ rest)) = name :: scan rest := by
  rw [scan, segments_placeholder hname hrest]
  show String.ofList name.toList :: scan rest = name :: scan rest
  rw [String.ofList_toList]

theorem scan_placeholder {name : String} (hname : isName name.toList = true) :
    scan (':' :: name.toList) = [name] := by
  have hend : scan (':' :: (name.toList ++ [])) = name :: scan [] :=
    scan_placeholder_append hname nofun
  simpa [scan, segments] using hend

/-- Every text splits into segments in exactly one way. The names that are found in it are those of
the placeholders among the segments, in their order and as often as they stand there, and each is the
name of a placeholder. -/
theorem scan_splits (cs : List Char) :
    ∃ gs, Splits cs gs ∧ (∀ gs', Splits cs gs' → gs' = gs) ∧
      scan cs = (gs.filterMap Segment.name?).map String.ofList ∧
      ∀ name ∈ scan cs, isName name.toList = true := by
  refine ⟨segments cs, splits_segments cs, fun gs' h => splits_iff.mp h, rfl, fun name hname => ?_⟩
  obtain ⟨n, hn, rfl⟩ := mem_scan.mp hname
  rw [String.toList_ofList]
  exact isName_of_splits (splits_segments cs) hn

end Placeholder

end SqlTemplate
