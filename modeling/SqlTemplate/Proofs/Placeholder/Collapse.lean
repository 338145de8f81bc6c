import Mathlib.Data.List.Sort
import SqlTemplate.CommandLine.Run
import SqlTemplate.Proofs.Placeholder.Segmentation
/-!
The placeholders of a text whose white space is collapsed.

Collapsing looks at single characters, and a segment may take in white space. A quoted text, a block
comment, a run of colons and a placeholder end where other characters say so; a line comment ends with
its line, and a collapsed text is one line. What is proved:
  1. `respaced_collapse`: a collapsed text has the characters of the text that are not white space, in
     their order, and a space or nothing for white space between them (`Respaced`).
  2. `cutAt?_respaced`: a mark without white space is found in both texts, or in neither.
  3. `names_respaced`: the segments in front of the first line comment keep their kinds and their
     names, and the line comment takes in all that follows.
  4. `scan_collapse_eq`: so the placeholders of a collapsed text are those in front of the first line
     comment.
  5. `collapse_collapse`: a collapsed text has no white space to collapse.
  6. `scan_collapse`: these placeholders are what the command line reports of a text that it has
     collapsed, and `collapse_hides_placeholder` is a text that loses one.
-/

namespace SqlTemplate

namespace Segment

def isLineComment : Segment → Bool
  | .lineComment _ => true
  | _ => false

end Segment

namespace Placeholder

open Text (isBlank allBlank collapse joined words wordsFrom cutAt? after? LongestRun)

def inFront (gs : List Segment) : List Segment := gs.takeWhile fun g => !g.isLineComment

def named (gs : List Segment) : List String := (gs.filterMap Segment.name?).map String.ofList

/-- The second text is the first with every run of white space replaced by a space, or left out at
the end. -/
inductive Respaced : List Char → List Char → Prop
  | ending {w : List Char} (hw : allBlank w = true) : Respaced w []
  | char {c : Char} {cs ds : List Char} (hc : isBlank c = false) (h : Respaced cs ds) :
      Respaced (c :: cs) (c :: ds)
  | gap {w cs ds : List Char} (hw : allBlank w = true) (hne : w ≠ []) (h : Respaced cs ds) :
      Respaced (w ++ cs) (' ' :: ds)

/-! ## Characters of both texts -/

theorem isBlank_of_allBlank {c : Char} {w : List Char} (hw : allBlank w = true) (hc : c ∈ w) :
    isBlank c = true :=
  List.all_eq_true.mp hw c hc

theorem Respaced.cons {c : Char} {cs ds : List Char} (hc : isBlank c = false)
    (h : Respaced (c :: cs) ds) : ∃ ds', ds = c :: ds' ∧ Respaced cs ds' := by
  generalize hx : c :: cs = x at h
  cases h with
  | ending hw =>
    have hblank := isBlank_of_allBlank hw (hx ▸ List.mem_cons_self)
    rw [hc] at hblank
    cases hblank
  | char _ h =>
    cases hx
    exact ⟨_, rfl, h⟩
  | @gap w _ _ hw hne h =>
    obtain ⟨d, w, rfl⟩ := List.exists_cons_of_ne_nil hne
    cases hx
    have hblank := isBlank_of_allBlank hw List.mem_cons_self
    rw [hc] at hblank
    cases hblank

theorem Respaced.append {w cs ds : List Char} (hw : ∀ c ∈ w, isBlank c = false)
    (h : Respaced (w ++ cs) ds) : ∃ ds', ds = w ++ ds' ∧ Respaced cs ds' := by
  induction w generalizing ds with
  | nil => exact ⟨ds, rfl, h⟩
  | cons c w ih =>
    obtain ⟨ds₁, rfl, h₁⟩ := h.cons (hw c List.mem_cons_self)
    obtain ⟨ds₂, rfl, h₂⟩ := ih (fun d hd => hw d (List.mem_cons_of_mem c hd)) h₁
    exact ⟨ds₂, rfl, h₂⟩

theorem Respaced.of_append {w cs ds : List Char} (hw : ∀ c ∈ w, isBlank c = false)
    (h : Respaced cs (w ++ ds)) : ∃ cs', cs = w ++ cs' ∧ Respaced cs' ds := by
  induction w generalizing cs with
  | nil => exact ⟨cs, rfl, h⟩
  | cons c w ih =>
    rw [List.cons_append] at h
    cases h with
    | char _ h =>
      obtain ⟨cs', rfl, h'⟩ := ih (fun d hd => hw d (List.mem_cons_of_mem c hd)) h
      exact ⟨cs', rfl, h'⟩
    | gap =>
      have hspace := hw ' ' List.mem_cons_self
      cases hspace

theorem Respaced.eq_space {cs ds : List Char} (h : Respaced cs ds) {c : Char} (hc : c ∈ ds)
    (hblank : isBlank c = true) : c = ' ' := by
  induction h with
  | ending => cases hc
  | char hd _ ih =>
    rcases List.mem_cons.mp hc with rfl | hc
    · rw [hd] at hblank
      cases hblank
    · exact ih hc
  | gap _ _ _ ih =>
    rcases List.mem_cons.mp hc with rfl | hc
    · rfl
    · exact ih hc

/-- What does not hold of a first character that is not white space, and not of a space, does not
hold of the first character of the second text. -/
theorem Respaced.head {p : Char → Prop} {cs ds : List Char} (h : Respaced cs ds) (hspace : p ' ')
    (hcs : ∀ c ∈ cs.head?, p c) : ∀ c ∈ ds.head?, p c := by
  intro c hc
  cases h with
  | ending => cases hc
  | char _ h =>
    cases hc
    exact hcs _ rfl
  | gap hw hne h =>
    cases hc
    exact hspace

theorem Respaced.head?_ne {cs ds : List Char} (h : Respaced cs ds) {x : Char} (hx : ' ' ≠ x)
    (hcs : cs.head? ≠ some x) : ds.head? ≠ some x := by
  have hhead := h.head (p := (· ≠ x)) hx fun c hc heq => hcs (heq ▸ hc)
  exact fun hds => hhead x hds rfl

/-! ## Marks in both texts -/

section
variable {m : Char} {ms cs ds : List Char} (hm : ∀ c ∈ m :: ms, isBlank c = false)
include hm

theorem after?_respaced (h : Respaced cs ds) {rest : List Char}
    (hafter : after? (m :: ms) cs = some rest) :
    ∃ rest', after? (m :: ms) ds = some rest' ∧ Respaced rest rest' := by
  rw [Text.append_of_after? hafter] at h
  obtain ⟨rest', rfl, hrest⟩ := h.append hm
  exact ⟨rest', Text.after?_marker _ rest', hrest⟩

theorem after?_respaced_none (h : Respaced cs ds) (hafter : after? (m :: ms) cs = none) :
    after? (m :: ms) ds = none := by
  cases hds : after? (m :: ms) ds with
  | none => rfl
  | some rest' =>
    rw [Text.append_of_after? hds] at h
    obtain ⟨rest, rfl, _⟩ := h.of_append hm
    rw [Text.after?_marker] at hafter
    cases hafter

theorem cutAt?_blank_append {w : List Char} (hw : allBlank w = true) (cs : List Char) :
    cutAt? (m :: ms) (w ++ cs) = (cutAt? (m :: ms) cs).map fun p => (w ++ p.1, p.2) := by
  induction w with
  | nil => simp
  | cons c w ih =>
    rw [allBlank, List.all_cons, Bool.and_eq_true] at hw
    have hne : m ≠ c := by
      rintro rfl
      rw [hm m List.mem_cons_self] at hw
      cases hw.1
    rw [List.cons_append, cutAt?, after?, if_neg hne, ih hw.2]
    cases cutAt? (m :: ms) cs <;> rfl

/-- A mark without white space is found in both texts, and what stands behind it is the same but for
white space, or it is found in neither. -/
theorem cutAt?_respaced (h : Respaced cs ds) :
    (cutAt? (m :: ms) cs = none ∧ cutAt? (m :: ms) ds = none) ∨
    ∃ before rest before' rest', cutAt? (m :: ms) cs = some (before, rest) ∧
      cutAt? (m :: ms) ds = some (before', rest') ∧ Respaced rest rest' := by
  induction h with
  | @ending w hw =>
    have hnil : cutAt? (m :: ms) [] = none := by rw [cutAt?, after?, Option.map_none]
    have hcut := cutAt?_blank_append hm hw []
    rw [List.append_nil, hnil, Option.map_none] at hcut
    exact .inl ⟨hcut, hnil⟩
  | @char c cs ds hc h ih =>
    rw [cutAt?, cutAt?]
    cases hafter : after? (m :: ms) (c :: cs) with
    | some rest =>
      obtain ⟨rest', hafter', hrest⟩ := after?_respaced hm (.char hc h) hafter
      exact .inr ⟨_, _, _, _, rfl, by rw [hafter'], hrest⟩
    | none =>
      rw [after?_respaced_none hm (.char hc h) hafter]
      rcases ih with ⟨hcs, hds⟩ | ⟨before, rest, before', rest', hcs, hds, hrest⟩
      · exact .inl ⟨by rw [hcs]; rfl, by rw [hds]; rfl⟩
      · exact .inr ⟨_, _, _, _, by rw [hcs]; rfl, by rw [hds]; rfl, hrest⟩
  | @gap w cs ds hw _ h ih =>
    have hspace := cutAt?_blank_append hm (w := [' ']) rfl ds
    rw [List.singleton_append] at hspace
    rw [cutAt?_blank_append hm hw, hspace]
    rcases ih with ⟨hcs, hds⟩ | ⟨before, rest, before', rest', hcs, hds, hrest⟩
    · exact .inl ⟨by rw [hcs]; rfl, by rw [hds]; rfl⟩
    · exact .inr ⟨_, _, _, _, by rw [hcs]; rfl, by rw [hds]; rfl, hrest⟩

theorem cutAt?_respaced_some (h : Respaced cs ds) {before rest : List Char}
    (hcut : cutAt? (m :: ms) cs = some (before, rest)) :
    ∃ before' rest', cutAt? (m :: ms) ds = some (before', rest') ∧ Respaced rest rest' := by
  rcases cutAt?_respaced hm h with ⟨hcs, _⟩ | ⟨_, _, before', rest', hcs, hds, hrest⟩
  · rw [hcut] at hcs
    cases hcs
  · rw [hcut] at hcs
    cases hcs
    exact ⟨before', rest', hds, hrest⟩

theorem cutAt?_respaced_none (h : Respaced cs ds) (hcut : cutAt? (m :: ms) cs = none) :
    cutAt? (m :: ms) ds = none := by
  rcases cutAt?_respaced hm h with ⟨_, hds⟩ | ⟨_, _, _, _, hcs, _, _⟩
  · exact hds
  · rw [hcut] at hcs
    cases hcs

end

/-! ## Segments of both texts -/

theorem isBlank_quote {q : Char} (hq : q = '\x27' ∨ q = '\x22') : ∀ c ∈ [q], isBlank c = false := by
  refine List.forall_mem_singleton.mpr ?_
  rcases hq with rfl | rfl <;> rfl

theorem isBlank_pair {a b : Char} (ha : isBlank a = false) (hb : isBlank b = false) :
    ∀ c ∈ [a, b], isBlank c = false :=
  List.forall_mem_cons.mpr ⟨ha, List.forall_mem_singleton.mpr hb⟩

theorem isBlank_endMark : ∀ c ∈ endMark, isBlank c = false := isBlank_pair rfl rfl

theorem isBlank_of_isSegment {name rest : List Char} (h : IsSegment (.placeholder name) rest) :
    ∀ c ∈ ':' :: name, isBlank c = false := by
  intro c hc
  rcases List.mem_cons.mp hc with rfl | hc
  · rfl
  · exact Text.isBlank_of_visible (visible_of_isName (isName_of_isSegment h) c hc)

theorem isSegment_blank {c : Char} (hc : isBlank c = true) (rest : List Char) :
    IsSegment (.other c) rest :=
  isSegment_plain (not_mem_marks (by decide) hc) rest

theorem segments_blank {c : Char} (hc : isBlank c = true) (cs : List Char) :
    segments (c :: cs) = .other c :: segments cs :=
  segments_of_isSegment (isSegment_blank hc cs)

theorem named_cons (g : Segment) (gs : List Segment) :
    named (g :: gs) = (g.name?.map String.ofList).toList ++ named gs := by
  unfold named
  cases h : g.name? <;> simp [h]

theorem inFront_cons {g : Segment} (hg : g.isLineComment = false) (gs : List Segment) :
    inFront (g :: gs) = g :: inFront gs :=
  List.takeWhile_cons_of_pos (by rw [hg]; rfl)

/-- The first segment of the second text is one with the same name, and what follows is the same but
for white space. -/
theorem exists_segment {g : Segment} {rest ds : List Char} (hg : IsSegment g rest)
    (hcomment : g.isLineComment = false) (hother : ∀ c, g = .other c → isBlank c = false)
    (h : Respaced (g.text ++ rest) ds) :
    ∃ g' rest', IsSegment g' rest' ∧ g'.name? = g.name? ∧ ds = g'.text ++ rest' ∧
      Respaced rest rest' := by
  cases hg with
  | @quoted q s _ hq hs =>
    obtain ⟨ds, rfl, hds⟩ := Respaced.cons (isBlank_quote hq q (List.mem_singleton_self q)) h
    have hclosed : cutAt? [q] (s ++ [q] ++ rest) = some (s, rest) := by
      rw [List.append_assoc]
      exact Text.cutAt?_singleton hs rest
    obtain ⟨t, rest', hcut, hrest⟩ := cutAt?_respaced_some (isBlank_quote hq) hds hclosed
    have ht : q ∉ t := Text.not_mem_of_cutAt?_singleton hcut
    refine ⟨.quoted (q :: (t ++ [q])), rest', .quoted hq ht, rfl, ?_, hrest⟩
    rw [Text.append_of_cutAt? hcut, Segment.text, List.cons_append]
  | @openQuoted q s hq hs =>
    obtain ⟨ds, rfl, hds⟩ := Respaced.cons (isBlank_quote hq q (List.mem_singleton_self q)) h
    have hopen : cutAt? [q] (s ++ []) = none := by
      refine Text.cutAt?_eq_none.mpr fun b r hb => hs ?_
      rw [← List.append_nil s, hb]
      simp
    have hcut := Text.cutAt?_eq_none.mp (cutAt?_respaced_none (isBlank_quote hq) hds hopen)
    have hq' : q ∉ ds := fun hmem => by
      obtain ⟨b, r, rfl⟩ := List.append_of_mem hmem
      exact hcut b r (by simp)
    exact ⟨.quoted (q :: ds), [], .openQuoted hq hq', rfl, by simp [Segment.text], .ending rfl⟩
  | lineComment => cases hcomment
  | @blockComment s _ first =>
    obtain ⟨ds, rfl, hds⟩ := h.append (isBlank_pair (a := '/') (b := '*') rfl rfl)
    obtain ⟨t, rest', hcut, hrest⟩ :=
      cutAt?_respaced_some isBlank_endMark hds (Text.cutAt?_of_first first)
    have hcs : ds = t ++ endMark ++ rest' := Text.append_of_cutAt? hcut
    refine ⟨.blockComment ('/' :: '*' :: (t ++ endMark)), rest', .blockComment fun b r heq => ?_,
      rfl, ?_, hrest⟩
    · exact Text.first_of_cutAt? hcut b r (hcs.trans heq)
    · rw [hcs]
      rfl
  | @openBlockComment s hs =>
    obtain ⟨ds, rfl, hds⟩ := h.append (isBlank_pair (a := '/') (b := '*') rfl rfl)
    have hopen : cutAt? endMark (s ++ []) = none := by
      rw [List.append_nil]
      exact Text.cutAt?_eq_none.mpr hs
    have hcut : cutAt? endMark ds = none := cutAt?_respaced_none isBlank_endMark hds hopen
    exact ⟨.blockComment ('/' :: '*' :: ds), [], .openBlockComment (Text.cutAt?_eq_none.mp hcut),
      rfl, by simp [Segment.text], .ending rfl⟩
  | @colons k _ hrest =>
    have hcolons : ∀ c ∈ List.replicate (k + 2) ':', isBlank c = false := by
      intro c hc
      rw [List.eq_of_mem_replicate hc]
      rfl
    obtain ⟨rest', rfl, hr⟩ := Respaced.append hcolons h
    exact ⟨_, rest', .colons (hr.head?_ne (by decide) hrest), rfl, rfl, hr⟩
  | @placeholder c more _ hc hrun =>
    obtain ⟨rest', rfl, hr⟩ :=
      Respaced.append (isBlank_of_isSegment (.placeholder hc hrun)) h
    have hstops := hr.head (p := (isNameRest · = false)) rfl hrun.stops
    exact ⟨_, rest', .placeholder hc ⟨hrun.all, hstops⟩, rfl, rfl, hr⟩
  | @other c _ hquote hhyphen hslash hcolon =>
    obtain ⟨rest', rfl, hr⟩ := Respaced.cons (hother c rfl) h
    refine ⟨.other c, rest', .other hquote (fun hc => hr.head?_ne (by decide) (hhyphen hc))
      (fun hc => hr.head?_ne (by decide) (hslash hc)) (fun hc => ?_), rfl, rfl, hr⟩
    exact hr.head (p := fun d => d ≠ ':' ∧ isNameStart d = false) (by decide) (hcolon hc)

/-- The placeholders of the second text are those of the first in front of its first line comment. -/
theorem names_respaced {cs ds : List Char} {gs : List Segment} (hgs : Splits cs gs)
    (h : Respaced cs ds) : named (segments ds) = named (inFront gs) := by
  induction hgs generalizing ds with
  | done =>
    cases ds with
    | nil => rw [segments]; rfl
    | cons d ds =>
      generalize hx : ([] : List Char) = x at h
      cases h with
      | char => cases hx
      | gap _ hne => exact absurd (List.append_eq_nil_iff.mp hx.symm).1 hne
  | @segment g rest gs hg _ ih =>
    by_cases hcomment : g.isLineComment = true
    · -- The second text has no line break that could end the comment.
      cases hg with
      | @lineComment s _ hs hrest =>
        obtain ⟨ds, rfl, hds⟩ := h.append (isBlank_pair (a := '-') (b := '-') rfl rfl)
        have hbreak : '\n' ∉ ds := fun hmem => by
          have hspace : '\n' = ' ' := hds.eq_space hmem rfl
          cases hspace
        have hcomment : IsSegment (.lineComment ('-' :: '-' :: ds)) [] := .lineComment hbreak (by simp)
        have hsegments := segments_of_isSegment hcomment
        rw [segments, Segment.text, List.append_nil] at hsegments
        show named (segments ('-' :: '-' :: ds)) = _
        rw [hsegments]
        rfl
      | _ => cases hcomment
    · have hcomment : g.isLineComment = false := by simpa using hcomment
      rw [inFront_cons hcomment, named_cons]
      by_cases hother : ∃ c, g = .other c ∧ isBlank c = true
      · -- White space has no name; the run that it belongs to ends here or goes on.
        obtain ⟨c, rfl, hc⟩ := hother
        show _ = named (inFront gs)
        generalize hx : Segment.text (.other c) ++ rest = x at h
        cases h with
        | ending hw =>
          rw [← hx, allBlank, List.all_append, Bool.and_eq_true] at hw
          exact ih (.ending hw.2)
        | char hd h =>
          cases hx
          rw [hc] at hd
          cases hd
        | @gap w cs ds hw hne h =>
          obtain ⟨d, w, rfl⟩ := List.exists_cons_of_ne_nil hne
          cases hx
          rw [allBlank, List.all_cons, Bool.and_eq_true] at hw
          cases w with
          | nil =>
            rw [segments_blank rfl, named_cons]
            exact ih h
          | cons e w => exact ih (.gap hw.2 (List.cons_ne_nil e w) h)
      · have hother' (c : Char) (hc : g = .other c) : isBlank c = false := by
          cases hblank : isBlank c with
          | false => rfl
          | true => exact absurd ⟨c, hc, hblank⟩ hother
        obtain ⟨g', rest', hg', hname, rfl, hrest⟩ := exists_segment hg hcomment hother' h
        rw [segments_of_isSegment hg', named_cons, hname, ih hrest]

/-! ## Collapsed texts -/

theorem wordsFrom_eq_nil {cs : List Char} (h : wordsFrom [] cs = []) : allBlank cs = true := by
  have hword : ∀ {cs word : List Char}, word ≠ [] → wordsFrom word cs ≠ [] := by
    intro cs
    induction cs with
    | nil => intro word hword; simp [wordsFrom, hword]
    | cons c cs ih =>
      intro word hword
      rw [wordsFrom]
      split
      · simp [hword]
      · exact ih (List.cons_ne_nil c word)
  induction cs with
  | nil => rfl
  | cons c cs ih =>
    rw [wordsFrom] at h
    split at h
    · rename_i hc
      rw [allBlank, List.all_cons, hc, Bool.true_and]
      exact ih h
    · exact absurd h (hword (List.cons_ne_nil c []))

/-- The words from one on, joined by spaces: the letters that are read already, and the rest of the
text. A new word begins behind the white space. -/
theorem respaced_wordsFrom (cs : List Char) :
    Respaced (cs.dropWhile isBlank) (joined [' '] (wordsFrom [] cs)) ∧
    ∀ word, word ≠ [] → ∃ ds, joined [' '] (wordsFrom word cs) = word.reverse ++ ds ∧
      Respaced cs ds := by
  induction cs with
  | nil =>
    refine ⟨.ending rfl, fun word hword => ⟨[], ?_, .ending rfl⟩⟩
    simp [wordsFrom, hword, joined]
  | cons c cs ih =>
    obtain ⟨hfirst, hmore⟩ := ih
    have hletter (hc : isBlank c = false) (word : List Char) :
        ∃ ds, joined [' '] (wordsFrom word (c :: cs)) = word.reverse ++ ds ∧
          Respaced (c :: cs) ds := by
      obtain ⟨ds, hjoined, hds⟩ := hmore (c :: word) (List.cons_ne_nil c word)
      refine ⟨c :: ds, ?_, .char hc hds⟩
      rw [wordsFrom, hc, if_neg (by decide), hjoined]
      simp
    cases hc : isBlank c with
    | false =>
      refine ⟨?_, fun word _ => hletter hc word⟩
      obtain ⟨ds, hjoined, hds⟩ := hletter hc []
      rw [hjoined, List.dropWhile_cons_of_neg (by rw [hc]; decide)]
      exact hds
    | true =>
      have hdrop : (c :: cs).dropWhile isBlank = cs.dropWhile isBlank :=
        List.dropWhile_cons_of_pos hc
      refine ⟨?_, fun word hword => ?_⟩
      · rw [hdrop, wordsFrom, hc, if_pos rfl, List.isEmpty_nil, if_pos rfl]
        exact hfirst
      · rw [wordsFrom, hc, if_pos rfl, if_neg (by simpa using hword)]
        cases hws : wordsFrom [] cs with
        | nil =>
          refine ⟨[], by simp [joined], .ending ?_⟩
          rw [allBlank, List.all_cons, hc, Bool.true_and]
          exact wordsFrom_eq_nil hws
        | cons w ws =>
          rw [hws] at hfirst
          refine ⟨' ' :: joined [' '] (w :: ws), by simp [joined], ?_⟩
          have hw : allBlank (c :: cs.takeWhile isBlank) = true := by
            rw [allBlank, List.all_cons, hc, List.all_takeWhile, Bool.and_self]
          have hgap := Respaced.gap hw (List.cons_ne_nil _ _) hfirst
          rwa [List.cons_append, List.takeWhile_append_dropWhile] at hgap

theorem respaced_collapse (cs : List Char) : Respaced (cs.dropWhile isBlank) (collapse cs) :=
  (respaced_wordsFrom cs).1

theorem named_inFront_dropWhile (cs : List Char) :
    named (inFront (segments (cs.dropWhile isBlank))) = named (inFront (segments cs)) := by
  induction cs with
  | nil => rfl
  | cons c cs ih =>
    cases hc : isBlank c with
    | false => rw [List.dropWhile_cons_of_neg (by rw [hc]; decide)]
    | true =>
      rw [List.dropWhile_cons_of_pos hc, ih, segments_blank hc, inFront_cons rfl, named_cons]
      rfl

theorem scan_blank_append {w : List Char} (hw : Text.allBlank w = true) (cs : List Char) :
    scan (w ++ cs) = scan cs :=
  scan_plain_append (fun _ hc => not_mem_marks (by decide) (isBlank_of_allBlank hw hc)) cs

theorem scan_collapse_eq (cs : List Char) : scan (collapse cs) = named (inFront (segments cs)) := by
  calc
    scan (collapse cs) = named (segments (collapse cs)) := rfl
    _ = named (inFront (segments (cs.dropWhile isBlank))) :=
      names_respaced (splits_segments _) (respaced_collapse cs)
    _ = named (inFront (segments cs)) := named_inFront_dropWhile cs

theorem mem_named {name : String} {gs : List Segment} :
    name ∈ named gs ↔ ∃ n, .placeholder n ∈ gs ∧ name = String.ofList n := by
  simp only [named, List.mem_map, List.mem_filterMap]
  constructor
  · rintro ⟨n, ⟨g, hg, hn⟩, rfl⟩
    cases g <;> cases hn
    exact ⟨n, hg, rfl⟩
  · rintro ⟨n, hn, rfl⟩
    exact ⟨n, ⟨_, hn, rfl⟩, rfl⟩

theorem named_eq_nil_iff {gs : List Segment} :
    named gs = [] ↔ ∀ name, .placeholder name ∉ gs := by
  rw [List.eq_nil_iff_forall_not_mem]
  constructor
  · intro h name hname
    exact h _ (mem_named.mpr ⟨name, hname, rfl⟩)
  · intro h name hname
    obtain ⟨n, hn, _⟩ := mem_named.mp hname
    exact h n hn

/-- No name is lost in front of the first line comment exactly if no placeholder stands behind one. -/
theorem named_inFront_eq_iff (gs : List Segment) : named (inFront gs) = named gs ↔
    ∀ before comment after, gs = before ++ .lineComment comment :: after →
      ∀ name, .placeholder name ∉ after := by
  induction gs with
  | nil => simp [inFront]
  | cons g gs ih =>
    cases hg : g.isLineComment with
    | true =>
      cases g with
      | lineComment comment =>
        have hfront : inFront (.lineComment comment :: gs) = [] := rfl
        rw [hfront, named_cons, eq_comm]
        show named gs = [] ↔ _
        rw [named_eq_nil_iff]
        constructor
        · intro h before c after heq name hname
          cases before with
          | nil =>
            cases heq
            exact h name hname
          | cons b before =>
            obtain ⟨_, rfl⟩ := List.cons.inj heq
            exact h name (List.mem_append_right _ (List.mem_cons_of_mem _ hname))
        · intro h
          exact h [] comment gs rfl
      | _ => cases hg
    | false =>
      rw [inFront_cons hg, named_cons, named_cons, List.append_cancel_left_eq, ih]
      constructor
      · intro h before c after heq
        cases before with
        | nil =>
          cases heq
          cases hg
        | cons b before =>
          obtain ⟨_, rfl⟩ := List.cons.inj heq
          exact h before c after rfl
      · intro h before c after heq
        exact h (g :: before) c after (by rw [heq]; rfl)

theorem scan_collapse_eq_iff (cs : List Char) : scan (collapse cs) = scan cs ↔
    ∀ before comment after, segments cs = before ++ .lineComment comment :: after →
      ∀ name, .placeholder name ∉ after := by
  rw [scan_collapse_eq]
  exact named_inFront_eq_iff (segments cs)

theorem used_eq_iff {cs ds : List Char} :
    used cs = used ds ↔ ∀ name, name ∈ scan cs ↔ name ∈ scan ds := by
  constructor
  · intro h name
    rw [← mem_used, h, mem_used]
  · intro h
    have hmem (name : String) : name ∈ used cs ↔ name ∈ used ds := by
      rw [mem_used, mem_used]
      exact h name
    have : Std.Irrefl fun a b : String => compare a b = .lt := ⟨fun a h => by
      rw [Std.ReflOrd.compare_self] at h
      cases h⟩
    have : Std.Antisymm fun a b : String => compare a b = .lt := ⟨fun a b hab hba => by
      rw [Std.OrientedOrd.eq_swap, hba] at hab
      cases hab⟩
    exact List.Pairwise.eq_of_mem_iff (ascending_used cs) (ascending_used ds) hmem

theorem used_collapse_eq_iff (cs : List Char) : used (collapse cs) = used cs ↔
    ∀ name ∈ scan cs, name ∈ named (inFront (segments cs)) := by
  rw [used_eq_iff, scan_collapse_eq]
  constructor
  · intro h name hname
    exact (h name).mpr hname
  · intro h name
    refine ⟨fun hname => ?_, h name⟩
    obtain ⟨n, hn, rfl⟩ := mem_named.mp hname
    exact mem_named.mpr ⟨n, (List.takeWhile_sublist _).subset hn, rfl⟩

/-! ## Collapsing twice -/

theorem wordsFrom_append {w : List Char} (hw : ∀ c ∈ w, isBlank c = false) (word cs : List Char) :
    wordsFrom word (w ++ cs) = wordsFrom (w.reverse ++ word) cs := by
  induction w generalizing word with
  | nil => rfl
  | cons c w ih =>
    rw [List.cons_append, wordsFrom, hw c List.mem_cons_self, if_neg (by decide),
      ih fun d hd => hw d (List.mem_cons_of_mem c hd)]
    simp

theorem mem_wordsFrom {cs word w : List Char} (hword : ∀ c ∈ word, isBlank c = false)
    (h : w ∈ wordsFrom word cs) : w ≠ [] ∧ ∀ c ∈ w, isBlank c = false := by
  have hend {word : List Char} (hword : ∀ c ∈ word, isBlank c = false) (hne : word ≠ []) :
      word.reverse ≠ [] ∧ ∀ c ∈ word.reverse, isBlank c = false :=
    ⟨by simpa using hne, fun c hc => hword c (List.mem_reverse.mp hc)⟩
  have hnone : ∀ c ∈ ([] : List Char), isBlank c = false := by simp
  induction cs generalizing word with
  | nil =>
    rw [wordsFrom] at h
    split at h
    · cases h
    · rename_i hne
      rw [List.mem_singleton.mp h]
      exact hend hword (by simpa using hne)
  | cons c cs ih =>
    rw [wordsFrom] at h
    split at h
    · split at h
      · exact ih hnone h
      · rename_i hne
        rcases List.mem_cons.mp h with rfl | h
        · exact hend hword (by simpa using hne)
        · exact ih hnone h
    · rename_i hc
      exact ih (List.forall_mem_cons.mpr ⟨by simpa using hc, hword⟩) h

theorem words_joined {ws : List (List Char)} (h : ∀ w ∈ ws, w ≠ [] ∧ ∀ c ∈ w, isBlank c = false) :
    words (joined [' '] ws) = ws := by
  have hfirst {w : List Char} (hw : w ≠ [] ∧ ∀ c ∈ w, isBlank c = false) (cs : List Char) :
      words (w ++ ' ' :: cs) = w :: words cs := by
    rw [words, wordsFrom_append hw.2, wordsFrom, Text.isBlank_space, if_pos rfl,
      if_neg (by simpa using hw.1)]
    simp [words]
  induction ws with
  | nil => rfl
  | cons w ws ih =>
    obtain ⟨hw, hws⟩ := List.forall_mem_cons.mp h
    cases ws with
    | nil =>
      have hlast := wordsFrom_append hw.2 [] []
      rw [List.append_nil] at hlast
      rw [joined, words, hlast, wordsFrom, if_neg (by simpa using hw.1)]
      simp
    | cons v ws =>
      rw [joined, List.append_assoc, List.singleton_append, hfirst hw, ih hws]
      exact nofun

theorem collapse_collapse (cs : List Char) : collapse (collapse cs) = collapse cs := by
  have hwords : words (collapse cs) = words cs := words_joined fun w hw => mem_wordsFrom (by simp) hw
  rw [collapse, hwords, ← collapse]

end Placeholder

/-! ## Reports -/

namespace CommandLine

def Report.collapsed : Report → Report
  | .pruned sql => .pruned (String.ofList (Text.collapse sql.toList))
  | r => r

variable {m : Type → Type} [Monad m]

/-- Pruning reports the collapsed text where white space is to be collapsed, and the text of the
template where it is not. -/
theorem perform_prune (host : Host m) (p : Preferences) (template : String)
    (values : Option String) (repeats : Repeats) (normalize : Bool) :
    perform host p (.prune template values repeats normalize) = (do
      let text ← host.source template
      let sql ← orRefuse (Template.prune text (← host.values values) repeats)
      return (if normalize || p.normalize then Report.collapsed else id) (.pruned sql)) := by
  rw [perform]
  cases normalize || p.normalize <;> rfl

theorem perform_prune_normalize [LawfulMonad m] (host : Host m) (p : Preferences)
    (template : String) (values : Option String) (repeats : Repeats) :
    perform host p (.prune template values repeats true) =
      Report.collapsed <$> perform host p (.prune template values repeats false) := by
  have hreport (sql : String) : Report.collapsed (.pruned sql) =
      Report.collapsed ((if p.normalize then Report.collapsed else id) (.pruned sql)) := by
    cases p.normalize with
    | false => rfl
    | true => simp [Report.collapsed, Placeholder.collapse_collapse]
  rw [perform_prune, perform_prune, Bool.true_or, Bool.false_or, if_pos rfl, map_bind]
  refine bind_congr fun text => ?_
  rw [map_bind]
  refine bind_congr fun context => ?_
  rw [map_bind]
  refine bind_congr fun sql => ?_
  rw [map_pure, hreport]

open Placeholder (scan used distinct named inFront segments)

/-- The placeholders of a collapsed text are those of the text in front of its first line comment.
They are all of its placeholders exactly if none stands behind a line comment, and the same names are
used exactly if every one of them also stands in front. Where pruning collapses, its report is that of
the same run without, with the text collapsed and these names as the parameters. -/
theorem scan_collapse [LawfulMonad m] (cs : List Char) (host : Host m) (p : Preferences)
    (template : String) (values : Option String) (repeats : Repeats) :
    (scan (Text.collapse cs) = named (inFront (segments cs)) ∧
      (scan (Text.collapse cs) = scan cs ↔
        ∀ before comment after, segments cs = before ++ .lineComment comment :: after →
          ∀ name, .placeholder name ∉ after)) ∧
    (used (Text.collapse cs) = used cs ↔ ∀ name ∈ scan cs, name ∈ named (inFront (segments cs))) ∧
    perform host p (.prune template values repeats true) =
      Report.collapsed <$> perform host p (.prune template values repeats false) ∧
    (Report.collapsed (.pruned (String.ofList cs))).toJson = .obj [
      ("sql", .text (String.ofList (Text.collapse cs))),
      ("used_parameters", .arr ((distinct (named (inFront (segments cs)))).map .text))] := by
  have hscan := Placeholder.scan_collapse_eq cs
  refine ⟨⟨hscan, Placeholder.scan_collapse_eq_iff cs⟩, Placeholder.used_collapse_eq_iff cs,
    perform_prune_normalize host p template values repeats, ?_⟩
  simp only [Report.collapsed, Report.toJson, String.toList_ofList, used, hscan]

/-- A machine with one file, which cannot be written. -/
def Host.ofFile (path text : String) : Host Id where
  input := .ok ""
  present other := other == path
  read other := if other = path then .ok text else .error "no such file"
  write _ _ := false

/-- A block comment, a line comment and literals with white space; behind the line comment stands only
a name that also stands in front of it. -/
theorem scan_collapse_block_comment :
    used (Text.collapse "select :a /* :x\n */ , '\n:y' -- :z\n  where b = :a".toList) = ["a"] ∧
    perform (.ofFile "q.xml" "<q>select :a -- :z\n where b = :a</q>") .standard
        (.prune "q.xml" none ∅ true) =
      ExceptT.mk (.ok (.pruned "select :a -- :z where b = :a")) := by
  have hall := scan_collapse "select :a /* :x\n */ , '\n:y' -- :z\n  where b = :a".toList
    (.ofFile "q.xml" "<q>select :a -- :z\n where b = :a</q>") .standard "q.xml" none ∅
  have hprune : Template.prune "<q>select :a -- :z\n where b = :a</q>" ∅ ∅ =
      .ok "select :a -- :z\n where b = :a" := by decide +kernel
  constructor
  · rw [hall.2.1.mpr (by decide +kernel)]
    decide +kernel
  · rw [hall.2.2.1, perform_prune]
    show Report.collapsed <$> (orRefuse (Template.prune _ ∅ ∅) >>= _) = _
    rw [hprune]
    rfl

/-- A placeholder in the line behind a comment is in the comment when the text is one line. -/
theorem collapse_hides_placeholder :
    scan "-- note\n:id".toList = ["id"] ∧ scan (Text.collapse "-- note\n:id".toList) = [] ∧
    Template.prune "<q>select 1 -- note\n where id = :id</q>" ∅ ∅ =
      .ok "select 1 -- note\n where id = :id" ∧
    used "select 1 -- note\n where id = :id".toList = ["id"] ∧
    used (Text.collapse "select 1 -- note\n where id = :id".toList) = [] := by
  decide +kernel

end CommandLine

end SqlTemplate
