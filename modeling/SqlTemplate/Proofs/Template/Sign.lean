import SqlTemplate.Proofs.Template.Junction
/-!
The signs of a template.

A sign is a character of text, an opening or a closing. A text is cut into events and the events into
signs, so that the signs do not show where one run of text ends and the next begins, nor whether an
element was closed by its own tag. An empty section of character data is an empty text. What is
proved:
  1. `signs?_next`, `signs?_text`: the signs of a text are those of the markup or of the run of text
     in front, and those of the rest.
  2. `signs?_append`: the signs of two texts, one behind the other, are those of the first and those of
     the second, if the first can be cut into signs by itself.
  3. `signs?_congr`: behind a text that ends in content, parts with the same signs can stand for each
     other.
-/

namespace SqlTemplate.Template

open Condition (run)

/-- A sign of a template: a character of text or an empty text, an opening or a closing. -/
inductive Sign where
  | text (s : String)
  | opening (name : String) (attributes : List (String × String))
  | closing (name : String)
  deriving DecidableEq

/-- The pieces of a text: its characters, and an empty text is one piece. -/
def pieces (s : String) : List String := if s = "" then [""] else s.toList.map String.singleton

/-- The signs of an event. A start tag that closes its element is an opening and a closing. -/
def Event.signs : Event → List Sign
  | .text s => (pieces s).map .text
  | .start name attributes empty =>
    .opening name attributes :: if empty then [.closing name] else []
  | .stop name => [.closing name]

def textSigns (cs : List Char) : List Sign := cs.map fun c => .text (String.singleton c)

def signs (es : List Located) : List Sign := es.flatMap fun e => e.event.signs

/-- The signs of a text, if it can be cut into events. -/
def signs? (cs : List Char) : Option (List Sign) := (events cs).toOption.map signs

/-- A text ends in content if it can be cut into events itself, where it can be gone on with at all:
it does not end in a tag, a comment, a section, an instruction or a reference. -/
def EndsInContent (cs : List Char) : Prop :=
  ∀ post, (signs? (cs ++ post)).isSome = true → (signs? cs).isSome = true

/-! ## The signs in front -/

theorem textSigns_append (cs ds : List Char) : textSigns (cs ++ ds) = textSigns cs ++ textSigns ds :=
  List.map_append

theorem textSigns_eq (cs : List Char) : textSigns cs = (cs.map String.singleton).map .text := by
  rw [List.map_map]
  rfl

theorem Event.signs_ofList {cs : List Char} (h : cs ≠ []) :
    (Event.text (String.ofList cs)).signs = textSigns cs := by
  have hne : String.ofList cs ≠ "" := by simpa using h
  rw [Event.signs, pieces, if_neg hne, String.toList_ofList, List.map_map]
  rfl

theorem signs?_nil : signs? [] = some [] := by
  rw [signs?, events]
  rfl

theorem signs?_next {c : Char} {cs rest : List Char} {ev : Option Event}
    {hlt : rest.length < (c :: cs).length} (h : next c cs = .ok (ev, ⟨rest, hlt⟩)) :
    signs? (c :: cs) = (signs? rest).map (ev.elim [] Event.signs ++ ·) := by
  unfold signs?
  rw [events, h]
  cases hrest : events rest with
  | error e => simp only [hrest]; rfl
  | ok es =>
    simp only [hrest]
    cases ev <;> rfl

theorem signs?_next_error {c : Char} {cs : List Char} {e : Failure} (h : next c cs = .error e) :
    signs? (c :: cs) = none := by
  rw [signs?, events, h]
  rfl

theorem exists_next {c : Char} {cs : List Char} {ss : List Sign} (h : signs? (c :: cs) = some ss) :
    ∃ ev rest hlt ss', next c cs = .ok (ev, ⟨rest, hlt⟩) ∧ signs? rest = some ss' ∧
      ss = ev.elim [] Event.signs ++ ss' := by
  cases hnext : next c cs with
  | error e =>
    rw [signs?_next_error hnext] at h
    cases h
  | ok result =>
    obtain ⟨ev, rest, hlt⟩ := result
    rw [signs?_next hnext, Option.map_eq_some_iff] at h
    obtain ⟨ss', hrest, rfl⟩ := h
    exact ⟨ev, rest, hlt, ss', rfl, hrest, rfl⟩

theorem resolved_ne_nil {after w s : List Char} (h : resolved after w = .ok s) (hw : w ≠ []) :
    s ≠ [] := by
  fun_cases resolved after w with
  | case1 => exact absurd rfl hw
  | case2 cs href => simp [resolved, href] at h
  | case3 cs entity rest href hentity => simp [resolved, href, hentity] at h
  | case4 cs entity rest href d hentity =>
    cases hrest : resolved after rest.1 with
    | error e => simp [resolved, href, hentity, hrest, Except.map] at h
    | ok t =>
      simp only [resolved, href, hentity, hrest, Except.map, if_pos, Except.ok.injEq] at h
      rw [← h]
      exact List.cons_ne_nil d t
  | case5 c cs hc =>
    cases hrest : resolved after cs with
    | error e => simp [resolved, hc, hrest, Except.map] at h
    | ok t =>
      simp only [resolved, if_neg hc, hrest, Except.map, Except.ok.injEq] at h
      rw [← h]
      exact List.cons_ne_nil c t

theorem next_content {c : Char} {w rest : List Char} (hw : '<' ∉ c :: w)
    (hrest : ∀ d ∈ rest.head?, d = '<') :
    ∃ hlt, next c (w ++ rest) = (resolved rest (c :: w)).map fun s =>
      (some (.text (String.ofList s)), ⟨rest, hlt⟩) := by
  obtain ⟨hc, hw⟩ := List.ne_and_not_mem_of_not_mem_cons hw
  have hrun : Text.LongestRun (· != '<') w rest := Text.longestRun_ne hw hrest
  refine ⟨by simp only [List.length_cons, List.length_append]; omega, ?_⟩
  unfold next
  rw [if_neg (Ne.symm hc)]
  simp only [content, run, hrun.takeWhile_append, hrun.dropWhile_append]
  cases resolved rest (c :: w) <;> rfl

/-- The signs of a run of text are its characters, with the references resolved. -/
theorem signs?_text {w rest : List Char} (hw : '<' ∉ w) (hrest : ∀ d ∈ rest.head?, d = '<') :
    signs? (w ++ rest) =
      (resolved rest w).toOption.bind fun s => (signs? rest).map (textSigns s ++ ·) := by
  cases w with
  | nil =>
    have hnil : resolved rest [] = .ok [] := by rw [resolved]
    rw [hnil, List.nil_append]
    cases signs? rest <;> rfl
  | cons c w =>
    obtain ⟨hlt, hnext⟩ := next_content hw hrest
    rw [List.cons_append]
    cases hs : resolved rest (c :: w) with
    | error e =>
      rw [hs] at hnext
      exact signs?_next_error hnext
    | ok s =>
      rw [hs] at hnext
      rw [signs?_next hnext]
      show (signs? rest).map ((Event.text (String.ofList s)).signs ++ ·) = _
      rw [Event.signs_ofList (resolved_ne_nil hs (List.cons_ne_nil c w))]
      rfl

/-! ## Two texts -/

theorem exists_run (cs : List Char) :
    ∃ w rest, cs = w ++ rest ∧ '<' ∉ w ∧ ∀ d ∈ rest.head?, d = '<' := by
  have hrun := Text.longestRun_takeWhile (· != '<') cs
  refine ⟨_, _, (List.takeWhile_append_dropWhile (p := (· != '<'))).symm, fun hmem => ?_, ?_⟩
  · have hne := List.all_eq_true.mp hrun.all _ hmem
    exact absurd rfl (bne_iff_ne.mp hne)
  · intro d hd
    simpa using hrun.stops d hd

/-- The signs of two texts, one behind the other, if the first can be cut into signs by itself. -/
theorem signs?_append {pre : List Char} {ss : List Sign} (h : signs? pre = some ss)
    (post : List Char) : signs? (pre ++ post) = (signs? post).map (ss ++ ·) := by
  obtain ⟨w, rest, hpre, hw, hrest⟩ := exists_run pre
  rw [hpre, signs?_text hw hrest] at h
  obtain ⟨s, hs, hss⟩ := Option.bind_eq_some_iff.mp h
  obtain ⟨ss', hrest', rfl⟩ := Option.map_eq_some_iff.mp hss
  have hs : resolved rest w = .ok s := by
    cases hw' : resolved rest w with
    | error e => rw [hw'] at hs; cases hs
    | ok s' => rw [hw'] at hs; cases hs; rfl
  rw [hpre, List.append_assoc]
  cases rest with
  | nil =>
    -- The run goes on in the second text.
    obtain ⟨v, rest, rfl, hv, hrest⟩ := exists_run post
    have hwv : '<' ∉ w ++ v := by
      rw [List.mem_append, not_or]
      exact ⟨hw, hv⟩
    rw [signs?_nil] at hrest'
    cases hrest'
    rw [List.nil_append, ← List.append_assoc, signs?_text hwv hrest, signs?_text hv hrest,
      resolved_append hs]
    cases resolved rest v with
    | error e => rfl
    | ok t =>
      cases signs? rest with
      | none => rfl
      | some ss => simp [Except.map, Except.toOption, textSigns_append]
  | cons c r =>
    obtain rfl : c = '<' := hrest c rfl
    have hfirst : ∀ d ∈ ('<' :: r ++ post).head?, d = '<' := by
      rintro d ⟨⟩
      rfl
    obtain ⟨ev, left, hlt, ss, hnext, hleft, rfl⟩ := exists_next hrest'
    obtain ⟨_, hnext'⟩ := next_append hnext post
    have ih := signs?_append hleft post
    rw [signs?_text hw hfirst, resolved_after hs, List.cons_append, signs?_next hnext', ih]
    cases signs? post with
    | none => rfl
    | some ss => simp [Except.toOption]
termination_by pre.length
decreasing_by
  rw [hpre, List.length_append]
  exact Nat.lt_of_lt_of_le hlt (Nat.le_add_left _ _)

theorem signs?_both {s t : String} {ss ts : List Sign} (hs : signs? s.toList = some ss)
    (ht : signs? t.toList = some ts) : signs? (s ++ t).toList = some (ss ++ ts) := by
  rw [String.toList_append, signs?_append hs, ht, Option.map_some]

/-- Behind a text that ends in content, parts with the same signs can stand for each other. -/
theorem signs?_congr {pre cs ds : List Char} (hpre : EndsInContent pre) (h : signs? cs = signs? ds) :
    signs? (pre ++ cs) = signs? (pre ++ ds) := by
  cases hss : signs? pre with
  | some ss => rw [signs?_append hss, signs?_append hss, h]
  | none =>
    have hnone (post : List Char) : signs? (pre ++ post) = none := by
      cases hpost : signs? (pre ++ post) with
      | none => rfl
      | some ss =>
        have hsome := hpre post (by rw [hpost]; rfl)
        rw [hss] at hsome
        cases hsome
    rw [hnone, hnone]

end SqlTemplate.Template
