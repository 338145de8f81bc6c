import SqlTemplate.Proofs.Sql.Connection
/-!
How the slots of a statement are numbered and named.

A slot that is written without a name is the next one; a name that occurred means the slot that it
meant before; a number means the slot of this number, and all slots up to it are there. So no two
slots of a statement have one name (`isDistinct_of_read`), and a name means one slot
(`Slots.IsDistinct.idxOf?`).
-/

namespace SqlTemplate.Sql

/-- No two slots have one name, and one that is named by a number is the slot of this number. -/
structure Slots.IsDistinct (slots : Slots) : Prop where
  unique {i j : Nat} {name : String} (hi : slots[i]? = some (some name))
    (hj : slots[j]? = some (some name)) : i = j
  numbered {i : Nat} {digits : List Char}
    (h : slots[i]? = some (some (String.ofList ('?' :: digits)))) : Numeral.value digits = i + 1

namespace Slots

variable {slots : Slots}

theorem isDistinct_nil : IsDistinct [] := ⟨nofun, nofun⟩

theorem getElem?_of_pad {i n : Nat} {name : String}
    (h : (slots ++ List.replicate n none)[i]? = some (some name)) :
    slots[i]? = some (some name) := by
  rw [List.getElem?_append] at h
  split at h
  · exact h
  · rw [List.getElem?_replicate] at h
    split at h <;> cases h

theorem IsDistinct.pad (h : slots.IsDistinct) (n : Nat) :
    IsDistinct (slots ++ List.replicate n none) :=
  ⟨fun hi hj => h.unique (getElem?_of_pad hi) (getElem?_of_pad hj),
    fun hi => h.numbered (getElem?_of_pad hi)⟩

/-- A slot that had no name gets one that no other has. -/
theorem IsDistinct.set (h : slots.IsDistinct) {n : Nat} {name : String}
    (hfresh : ∀ i : Nat, slots[i]? ≠ some (some name))
    (hnumber : ∀ digits, name = String.ofList ('?' :: digits) → Numeral.value digits = n + 1) :
    IsDistinct (slots.set n (some name)) := by
  have hcases {i : Nat} {other : String} (hi : (slots.set n (some name))[i]? = some (some other)) :
      (i = n ∧ other = name) ∨ slots[i]? = some (some other) := by
    rw [List.getElem?_set] at hi
    split at hi
    · split at hi <;> cases hi
      exact .inl ⟨by omega, rfl⟩
    · exact .inr hi
  constructor
  · intro i j other hi hj
    rcases hcases hi with ⟨rfl, rfl⟩ | hi' <;> rcases hcases hj with ⟨rfl, hname⟩ | hj'
    · rfl
    · exact absurd hj' (hfresh j)
    · exact absurd (hname ▸ hi') (hfresh i)
    · exact h.unique hi' hj'
  · intro i digits hi
    rcases hcases hi with ⟨rfl, hname⟩ | hi'
    · exact hnumber digits hname.symm
    · exact h.numbered hi'

theorem IsDistinct.take (h : slots.IsDistinct) {text : List Char} (htext : inRange text = true) :
    IsDistinct (slots.take text).2 := by
  unfold Slots.take
  split
  · exact h.pad 1
  -- A number: all slots up to it join, and it names its own unless that has a name already.
  · rename_i digits hdigits
    have hpadded := h.pad (Numeral.value digits - slots.length)
    have hpositive : 0 < Numeral.value digits := by
      cases digits with
      | nil => exact absurd rfl hdigits
      | cons d ds =>
        simp only [inRange, Bool.and_eq_true, decide_eq_true_eq] at htext
        exact htext.1
    simp only
    split
    · exact hpadded
    · rename_i hfree
      refine hpadded.set (fun i hi => hfree ?_) fun other heq => ?_
      · have hvalue := hpadded.numbered hi
        rw [show Numeral.value digits - 1 = i by omega, hi]
        rfl
      · have hother : '?' :: digits = '?' :: other := String.ofList_injective heq
        cases hother
        omega
  -- A name.
  · rename_i hnumber
    simp only
    split
    · exact h
    · rename_i hnone
      have happend : slots ++ [some (String.ofList text)] =
          (slots ++ List.replicate 1 none).set slots.length (some (String.ofList text)) := by
        simp
      rw [happend]
      refine (h.pad 1).set (fun i hi => ?_) fun digits heq => ?_
      · exact List.idxOf?_eq_none_iff.mp hnone (List.mem_of_getElem? (getElem?_of_pad hi))
      · exact absurd (String.ofList_injective heq) (hnumber digits)

theorem isDistinct_numbered (h : slots.IsDistinct) (l : Lexeme) :
    IsDistinct (l.numbered slots).2 := by
  unfold Lexeme.numbered
  split
  · split
    · rename_i htext
      exact h.take htext
    · exact h
  · exact h

theorem isDistinct_numberSlots (h : slots.IsDistinct) (ls : List Lexeme) :
    IsDistinct (numberSlots slots ls).2 := by
  induction ls generalizing slots with
  | nil => exact h
  | cons l ls ih =>
    rw [numberSlots]
    exact ih (isDistinct_numbered h l)

theorem IsDistinct.idxOf? (h : slots.IsDistinct) {name : String} {i : Nat} :
    slots.idxOf? (some name) = some i ↔ slots[i]? = some (some name) := by
  constructor
  · intro hi
    obtain ⟨hlt, hname, -⟩ := List.idxOf?_eq_some_iff.mp hi
    rw [List.getElem?_eq_getElem hlt, hname]
  · intro hi
    obtain ⟨hlt, hname⟩ := List.getElem?_eq_some_iff.mp hi
    refine List.idxOf?_eq_some_iff.mpr ⟨hlt, hname, fun j hj heq => ?_⟩
    have hsame : slots[j]? = some (some name) := by rw [List.getElem?_eq_getElem (by omega), heq]
    exact absurd (h.unique hsame hi) (by omega)

end Slots

theorem isDistinct_of_read {taken : String → Bool} {sql : String} {s : Statement} {slots : Slots}
    (h : read taken sql = .ok (s, slots)) : slots.IsDistinct := by
  have hslots := Slots.isDistinct_numberSlots Slots.isDistinct_nil (firstStatement sql.toList).1
  unfold read at h
  simp only at h
  split at h
  · cases h
    exact Slots.isDistinct_nil
  · split at h
    · cases h
    · split at h <;> cases h
      exact hslots

end SqlTemplate.Sql
