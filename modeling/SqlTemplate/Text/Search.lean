/-!
Cutting a text: at a marker in front, at the first occurrence of a marker, and after the longest
run of characters of a class. What a cut leaves is never longer than what it was given.
-/

namespace SqlTemplate.Text

/-- What follows `marker`, if the text begins with it. -/
def after? : (marker cs : List Char) → Option (List Char)
  | [], cs => some cs
  | _ :: _, [] => none
  | m :: ms, c :: cs => if m = c then after? ms cs else none

def startsWith (marker cs : List Char) : Bool := (after? marker cs).isSome

/-- What stands before and what stands after the first occurrence of `marker`. -/
def cutAt? (marker : List Char) : List Char → Option (List Char × List Char)
  | [] => (after? marker []).map ([], ·)
  | c :: cs =>
    match after? marker (c :: cs) with
    | some rest => some ([], rest)
    | none => (cutAt? marker cs).map fun (before, rest) => (c :: before, rest)

theorem append_of_after? {marker cs rest : List Char} (h : after? marker cs = some rest) :
    cs = marker ++ rest := by
  fun_induction after? marker cs with
  | case1 cs => simpa using h
  | case2 => simp at h
  | case3 ms c cs ih => simp [ih h]
  | case4 => simp at h

theorem append_of_cutAt? {marker cs before rest : List Char}
    (h : cutAt? marker cs = some (before, rest)) : cs = before ++ marker ++ rest := by
  induction cs generalizing before with
  | nil =>
    simp only [cutAt?, Option.map_eq_some_iff, Prod.mk.injEq] at h
    obtain ⟨r, hr, rfl, rfl⟩ := h
    simpa using append_of_after? hr
  | cons c cs ih =>
    simp only [cutAt?] at h
    split at h
    · next hr =>
      simp only [Option.some.injEq, Prod.mk.injEq] at h
      obtain ⟨rfl, rfl⟩ := h
      simpa using append_of_after? hr
    · simp only [Option.map_eq_some_iff, Prod.mk.injEq] at h
      obtain ⟨⟨b, r⟩, hb, rfl, rfl⟩ := h
      simp [ih hb]

theorem length_cutAt? {marker cs before rest : List Char}
    (h : cutAt? marker cs = some (before, rest)) : rest.length ≤ cs.length := by
  simp [append_of_cutAt? h]; omega

theorem length_dropWhile_le (p : Char → Bool) (cs : List Char) :
    (cs.dropWhile p).length ≤ cs.length :=
  (List.dropWhile_sublist p).length_le

theorem not_mem_of_cutAt?_singleton {q : Char} {cs before rest : List Char}
    (h : cutAt? [q] cs = some (before, rest)) : q ∉ before := by
  induction cs generalizing before with
  | nil => simp [cutAt?, after?] at h
  | cons c cs ih =>
    by_cases hc : q = c
    · simp only [cutAt?, after?, if_pos hc, Option.some.injEq, Prod.mk.injEq] at h
      rw [← h.1]
      exact List.not_mem_nil
    · simp only [cutAt?, after?, if_neg hc, Option.map_eq_some_iff, Prod.mk.injEq] at h
      obtain ⟨⟨b, r⟩, hb, rfl, rfl⟩ := h
      exact List.not_mem_cons_of_ne_of_not_mem hc (ih hb)

theorem cutAt?_singleton {q : Char} {before : List Char} (h : q ∉ before) (rest : List Char) :
    cutAt? [q] (before ++ q :: rest) = some (before, rest) := by
  induction before with
  | nil => simp [cutAt?, after?]
  | cons c cs ih =>
    obtain ⟨hc, hcs⟩ := List.ne_and_not_mem_of_not_mem_cons h
    simp [cutAt?, after?, hc, ih hcs]

theorem after?_marker (marker rest : List Char) : after? marker (marker ++ rest) = some rest := by
  induction marker with
  | nil => rw [List.nil_append, after?]
  | cons m ms ih => rw [List.cons_append, after?, if_pos rfl, ih]

theorem startsWith_iff {marker cs : List Char} :
    startsWith marker cs = true ↔ ∃ rest, cs = marker ++ rest := by
  rw [startsWith, Option.isSome_iff_exists]
  constructor
  · rintro ⟨rest, h⟩
    exact ⟨rest, append_of_after? h⟩
  · rintro ⟨rest, rfl⟩
    exact ⟨rest, after?_marker marker rest⟩

/-- Where a mark stands, it is found there or earlier. -/
theorem cutAt?_of_mark {marker cs before rest : List Char} (h : cs = before ++ marker ++ rest) :
    ∃ b r, cutAt? marker cs = some (b, r) ∧ b.length ≤ before.length := by
  induction cs generalizing before with
  | nil =>
    simp only [List.nil_eq, List.append_eq_nil_iff] at h
    obtain ⟨⟨rfl, rfl⟩, _⟩ := h
    exact ⟨[], [], rfl, Nat.le_refl _⟩
  | cons c cs ih =>
    rw [cutAt?]
    cases hafter : after? marker (c :: cs) with
    | some r => exact ⟨[], r, rfl, Nat.zero_le _⟩
    | none =>
      cases before with
      | nil =>
        rw [h, List.nil_append, after?_marker] at hafter
        cases hafter
      | cons d before =>
        rw [List.cons_append, List.cons_append, List.cons.injEq] at h
        obtain ⟨b, r, hcut, hlength⟩ := ih h.2
        refine ⟨c :: b, r, by rw [hcut]; rfl, ?_⟩
        simpa using hlength

theorem cutAt?_of_first {marker before rest : List Char}
    (h : ∀ b r, before ++ marker ++ rest = b ++ marker ++ r → before.length ≤ b.length) :
    cutAt? marker (before ++ marker ++ rest) = some (before, rest) := by
  obtain ⟨b, r, hcut, hlength⟩ := cutAt?_of_mark (rfl : before ++ marker ++ rest = _)
  have heq := append_of_cutAt? hcut
  have hsame : before.length = b.length := Nat.le_antisymm (h b r heq) hlength
  rw [List.append_assoc, List.append_assoc] at heq
  obtain ⟨rfl, htail⟩ := List.append_inj heq hsame
  rw [hcut, List.append_cancel_left htail]

theorem first_of_cutAt? {marker cs before rest : List Char}
    (h : cutAt? marker cs = some (before, rest)) :
    ∀ b r, cs = b ++ marker ++ r → before.length ≤ b.length := by
  intro b r hcs
  obtain ⟨b', r', hcut, hlength⟩ := cutAt?_of_mark hcs
  rw [h] at hcut
  cases hcut
  exact hlength

theorem cutAt?_eq_none {marker cs : List Char} :
    cutAt? marker cs = none ↔ ∀ b r, cs ≠ b ++ marker ++ r := by
  constructor
  · intro h b r hcs
    obtain ⟨b', r', hcut, _⟩ := cutAt?_of_mark hcs
    rw [h] at hcut
    cases hcut
  · intro h
    cases hcut : cutAt? marker cs with
    | none => rfl
    | some p => exact absurd (append_of_cutAt? hcut) (h p.1 p.2)

theorem not_mem_of_cutAt?_eq_none {c : Char} {cs : List Char} (h : cutAt? [c] cs = none) :
    c ∉ cs := by
  intro hc
  obtain ⟨before, rest, hcs⟩ := List.mem_iff_append.mp hc
  exact cutAt?_eq_none.mp h before rest (by rw [hcs, List.append_assoc]; rfl)

/-- The longest run of characters of a class in front of `rest`. -/
structure LongestRun (p : Char → Bool) (w rest : List Char) : Prop where
  all : w.all p = true
  stops : ∀ c ∈ rest.head?, p c = false

theorem longestRun_takeWhile (p : Char → Bool) (cs : List Char) :
    LongestRun p (cs.takeWhile p) (cs.dropWhile p) where
  all := List.all_takeWhile
  stops c hc := by
    have h := List.head?_dropWhile_not p cs
    rw [Option.mem_def.mp hc] at h
    simpa using h

namespace LongestRun

variable {p : Char → Bool} {w rest : List Char} (h : LongestRun p w rest)
include h

theorem takeWhile_append : (w ++ rest).takeWhile p = w := by
  rw [List.takeWhile_append_of_pos (List.all_eq_true.mp h.all)]
  cases rest with
  | nil => simp
  | cons c r => simp [h.stops c rfl]

theorem dropWhile_append : (w ++ rest).dropWhile p = rest := by
  rw [List.dropWhile_append_of_pos (List.all_eq_true.mp h.all)]
  cases rest with
  | nil => rfl
  | cons c r => simp [h.stops c rfl]

end LongestRun

theorem longestRun_ne {q : Char} {s rest : List Char} (hs : q ∉ s)
    (hrest : ∀ c ∈ rest.head?, c = q) : LongestRun (· != q) s rest where
  all := by
    rw [List.all_eq_true]
    intro c hc
    rw [bne_iff_ne]
    rintro rfl
    exact hs hc
  stops c hc := by rw [hrest c hc, bne_self_eq_false]

end SqlTemplate.Text
