import SqlTemplate.Text.Search
import SqlTemplate.Text.Utf8
/-!
Byte offsets in a text: the two sides of an offset, and the offsets at which a mark stands first and
a character last. A text is cut at the borders of its characters and nowhere else.
-/

namespace SqlTemplate.Text

/-- The two sides of a byte offset, unless it lies within a character or behind the end. -/
def splitAt? : List Char → Nat → Option (List Char × List Char)
  | cs, 0 => some ([], cs)
  | [], _ + 1 => none
  | c :: cs, n + 1 =>
    if c.utf8Size ≤ n + 1 then
      (splitAt? cs (n + 1 - c.utf8Size)).map fun (before, rest) => (c :: before, rest)
    else none

def find? (marker cs : List Char) : Option Nat :=
  (cutAt? marker cs).map fun (before, _) => byteLength before

/-- The byte offset of the last `c`. -/
def findLast? (c : Char) : List Char → Option Nat
  | [] => none
  | d :: cs =>
    match findLast? c cs with
    | some n => some (d.utf8Size + n)
    | none => if d = c then some 0 else none

@[simp] theorem byteLength_nil : byteLength [] = 0 := rfl

@[simp] theorem byteLength_cons (c : Char) (cs : List Char) :
    byteLength (c :: cs) = c.utf8Size + byteLength cs := rfl

@[simp] theorem byteLength_append (xs ys : List Char) :
    byteLength (xs ++ ys) = byteLength xs + byteLength ys := by
  rw [byteLength_eq, byteLength_eq, byteLength_eq, String.ofList_append,
    String.utf8ByteSize_append]

theorem byteLength_pos {cs : List Char} (h : cs ≠ []) : 0 < byteLength cs := by
  cases cs with
  | nil => exact absurd rfl h
  | cons c cs => exact Nat.add_pos_left c.utf8Size_pos _

theorem splitAt?_zero (cs : List Char) : splitAt? cs 0 = some ([], cs) := by
  cases cs <;> rfl

theorem splitAt?_append (before rest : List Char) :
    splitAt? (before ++ rest) (byteLength before) = some (before, rest) := by
  induction before with
  | nil => exact splitAt?_zero rest
  | cons c before ih =>
    have hpos : c.utf8Size + byteLength before = (c.utf8Size + byteLength before - 1) + 1 := by
      have := c.utf8Size_pos
      omega
    rw [List.cons_append, byteLength_cons, hpos, splitAt?, ← hpos, if_pos (Nat.le_add_right _ _),
      Nat.add_sub_cancel_left, ih]
    rfl

/-- What an offset cuts is the whole text, and the offset counts the bytes in front of it. -/
theorem eq_of_splitAt? {cs before rest : List Char} {n : Nat}
    (h : splitAt? cs n = some (before, rest)) : cs = before ++ rest ∧ n = byteLength before := by
  fun_induction splitAt? cs n generalizing before with
  | case1 cs => cases h; exact ⟨rfl, rfl⟩
  | case2 => cases h
  | case3 c cs n hle ih =>
    simp only [Option.map_eq_some_iff, Prod.mk.injEq] at h
    obtain ⟨⟨b, r⟩, hb, rfl, rfl⟩ := h
    obtain ⟨rfl, hn⟩ := ih hb
    have hlength : n + 1 = c.utf8Size + byteLength b := by
      omega
    exact ⟨rfl, hlength⟩
  | case4 => cases h

/-- A text is cut at the borders of its characters and nowhere else. -/
theorem isSome_splitAt?_iff {cs : List Char} {n : Nat} :
    (splitAt? cs n).isSome ↔ String.Pos.Raw.IsValid (String.ofList cs) ⟨n⟩ := by
  rw [String.Pos.Raw.isValid_iff_exists_append]
  constructor
  · intro h
    obtain ⟨⟨before, rest⟩, hsplit⟩ := Option.isSome_iff_exists.mp h
    obtain ⟨rfl, rfl⟩ := eq_of_splitAt? hsplit
    refine ⟨String.ofList before, String.ofList rest, String.ofList_append, ?_⟩
    rw [byteLength_eq]
    rfl
  · rintro ⟨s, t, hs, hn⟩
    have hcs : cs = s.toList ++ t.toList := by
      rw [← String.toList_append, ← hs, String.toList_ofList]
    have hlength : n = byteLength s.toList := by
      rw [byteLength_eq, String.ofList_toList]
      exact congrArg String.Pos.Raw.byteIdx hn
    rw [hcs, hlength, splitAt?_append]
    rfl

theorem find?_eq_none {marker cs : List Char} :
    find? marker cs = none ↔ cutAt? marker cs = none := by
  rw [find?, Option.map_eq_none_iff]

theorem find?_eq_some {marker cs before rest : List Char}
    (h : cutAt? marker cs = some (before, rest)) : find? marker cs = some (byteLength before) := by
  rw [find?, h]
  rfl

/-- The offset of the first `c`, or else the end, is behind the longest run without `c`. -/
theorem find?_getD (c : Char) (cs : List Char) :
    (find? [c] cs).getD (byteLength cs) = byteLength (cs.takeWhile (· != c)) := by
  cases hcut : cutAt? [c] cs with
  | none =>
    have hrun : LongestRun (· != c) cs [] :=
      longestRun_ne (not_mem_of_cutAt?_eq_none hcut) (fun d hd => by cases hd)
    have htake := hrun.takeWhile_append
    rw [List.append_nil] at htake
    rw [find?_eq_none.mpr hcut, Option.getD_none, htake]
  | some p =>
    obtain ⟨before, rest⟩ := p
    have hrun : LongestRun (· != c) before (c :: rest) :=
      longestRun_ne (not_mem_of_cutAt?_singleton hcut) (by rintro d ⟨⟩; rfl)
    have hcs : cs = before ++ c :: rest := by simpa using append_of_cutAt? hcut
    rw [find?_eq_some hcut, Option.getD_some, hcs, hrun.takeWhile_append]

theorem findLast?_eq_none {c : Char} {cs : List Char} (h : c ∉ cs) : findLast? c cs = none := by
  induction cs with
  | nil => rfl
  | cons d cs ih =>
    obtain ⟨hd, hcs⟩ := List.ne_and_not_mem_of_not_mem_cons h
    rw [findLast?, ih hcs]
    exact if_neg hd.symm

theorem findLast?_append {c : Char} {last : List Char} (h : c ∉ last) (above : List Char) :
    findLast? c (above ++ c :: last) = some (byteLength above) := by
  induction above with
  | nil =>
    rw [List.nil_append, findLast?, findLast?_eq_none h]
    exact if_pos rfl
  | cons d above ih => rw [List.cons_append, findLast?, ih]; rfl

end SqlTemplate.Text
