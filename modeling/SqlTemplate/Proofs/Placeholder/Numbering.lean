import SqlTemplate.Proofs.Placeholder.Segmentation
import SqlTemplate.Template.Prune
/-!
The numbered placeholders of an expansion, as they are found in its text.

What is proved:
  1. `isName_numbered`: a name with a number behind it is a name.
  2. `scan_joined`: names after colons, with a separator between them that has no mark and does not go
     on with a name, are found one by one.
  3. `length_used`: where no name comes twice, there are as many used names as placeholders.
  4. `scan_expanded`: so the text of an expansion has its numbered placeholders, in their order, and
     no others.
-/

namespace SqlTemplate

namespace Placeholder

/-! ## Names with numbers -/

theorem isNameRest_of_isDigit {c : Char} (h : Numeral.isDigit c = true) : isNameRest c = true := by
  simp [isNameRest, isNameStart, Condition.isNameChar, h]

theorem isName_numbered {label : String} (h : isName label.toList = true) (i : Nat) :
    isName (numbered label i).toList = true := by
  rw [numbered, String.toList_append, integerText_natCast, String.toList_ofList]
  cases hl : label.toList with
  | nil => rw [hl] at h; cases h
  | cons c cs =>
    rw [hl, isName, Bool.and_eq_true] at h
    rw [List.cons_append, isName, List.all_append, Bool.and_eq_true, Bool.and_eq_true]
    refine ⟨h.1, h.2, List.all_eq_true.mpr fun d hd => isNameRest_of_isDigit ?_⟩
    exact Numeral.isDigit_of_mem_toDigits hd

def numberedNames (name : String) (n : Nat) : List String := (List.range n).map (numbered name)

theorem nodup_numberedNames (name : String) (n : Nat) : (numberedNames name n).Nodup := by
  rw [numberedNames, List.Nodup, List.pairwise_map]
  exact List.nodup_range.imp fun hne heq => hne (numbered_inj.mp heq)

/-! ## Names with a separator -/

theorem head?_joined (sep name : List Char) (ws : List (List Char)) :
    (Text.joined sep ((':' :: name) :: ws)).head? = some ':' := by
  cases ws <;> rfl

/-- Placeholders with a separator between them are found one by one, if the separator has no mark and
does not go on with a name. -/
theorem scan_joined {sep : List Char} (hplain : ∀ c ∈ sep, c ∉ marks)
    (hstart : ∀ c ∈ sep.head?, isNameRest c = false) {names : List String}
    (hnames : ∀ name ∈ names, isName name.toList = true) :
    scan (Text.joined sep (names.map fun name => ':' :: name.toList)) = names := by
  induction names with
  | nil => simp [Text.joined, scan, segments]
  | cons name names ih =>
    obtain ⟨hname, hrest⟩ := List.forall_mem_cons.mp hnames
    cases names with
    | nil =>
      rw [List.map_singleton, Text.joined, scan_placeholder hname]
    | cons next names =>
      -- The name ends where the separator begins, or the next colon.
      have hends : ∀ c ∈ (sep ++ Text.joined sep
          ((next :: names).map fun name => ':' :: name.toList)).head?, isNameRest c = false := by
        intro c hc
        rw [List.map_cons, List.head?_append, head?_joined] at hc
        cases hsep : sep.head? with
        | none =>
          rw [hsep] at hc
          cases hc
          decide
        | some d =>
          rw [hsep] at hc
          exact hstart c (hsep ▸ hc)
      have hstep : Text.joined sep ((name :: next :: names).map fun name => ':' :: name.toList) =
          ':' :: (name.toList ++ (sep ++ Text.joined sep
            ((next :: names).map fun name => ':' :: name.toList))) := by
        simp [Text.joined]
      rw [hstep, scan_placeholder_append hname hends, scan_plain_append hplain, ih hrest]

theorem length_used {cs : List Char} (h : (scan cs).Nodup) : (used cs).length = (scan cs).length := by
  have hused : (used cs).Nodup := (ascending_used cs).imp fun hlt heq => by
    rw [heq, Std.ReflOrd.compare_self] at hlt
    cases hlt
  exact ((List.perm_ext_iff_of_nodup hused h).mpr fun _ => mem_used).length_eq

end Placeholder

namespace Template

open Placeholder (isName isNameRest marks numberedNames)

/-- An expansion of `n` placeholders is rendered to a text in which they are found as they are
numbered, if its separator has no quote, hyphen, slash or colon and does not begin with a character that
a name can go on with. No name is there twice, so `n` names are used. -/
theorem scan_expanded {name sep : String} (hname : isName name.toList = true)
    (hplain : ∀ c ∈ sep.toList, c ∉ marks) (hstart : ∀ c ∈ sep.toList.head?, isNameRest c = false)
    (n : Nat) :
    (∀ values repeats, expansionCount? values repeats name = some n →
      renderNode values repeats (.expand name sep) = .ok (expanded name sep n)) ∧
    Placeholder.scan (expanded name sep n).toList = numberedNames name n ∧
    (numberedNames name n).Nodup ∧
    (Placeholder.used (expanded name sep n).toList).length = n := by
  have hnames : ∀ m ∈ numberedNames name n, isName m.toList = true := by
    intro m hm
    obtain ⟨i, _, rfl⟩ := List.mem_map.mp hm
    exact Placeholder.isName_numbered hname i
  have hscan : Placeholder.scan (expanded name sep n).toList = numberedNames name n := by
    have hjoined := Placeholder.scan_joined hplain hstart hnames
    rw [numberedNames, List.map_map] at hjoined
    rw [expanded, String.toList_ofList, numberedNames]
    exact hjoined
  have hnodup := Placeholder.nodup_numberedNames name n
  refine ⟨fun values repeats hn => by rw [renderNode, hn], hscan, hnodup, ?_⟩
  rw [Placeholder.length_used (by rwa [hscan]), hscan, numberedNames, List.length_map,
    List.length_range]

/-- A name that ends in a digit, without a separator and with the one of an expansion that names
none. -/
theorem scan_expanded_digit :
    isName "a1".toList = true ∧ (∀ c ∈ "".toList, c ∉ marks) ∧
    (∀ c ∈ defaultSeparator.toList, c ∉ marks) ∧
    (∀ c ∈ defaultSeparator.toList.head?, isNameRest c = false) ∧
    expanded "a1" "" 2 = ":a10:a11" ∧
    Placeholder.scan (expanded "a1" "" 2).toList = numberedNames "a1" 2 ∧
    expanded "a1" defaultSeparator 2 = ":a10, :a11" ∧
    Placeholder.scan (expanded "a1" defaultSeparator 2).toList = numberedNames "a1" 2 := by
  have hname : isName "a1".toList = true := by decide
  have hnothing : ∀ c ∈ "".toList, c ∉ marks := nofun
  have hplain : ∀ c ∈ defaultSeparator.toList, c ∉ marks := by
    have hall : defaultSeparator.toList.all (fun c => !marks.contains c) = true := by decide
    simpa using hall
  have hstart : ∀ c ∈ defaultSeparator.toList.head?, isNameRest c = false := by
    have hhead : defaultSeparator.toList.head? = some ',' := by decide
    rw [hhead]
    rintro _ ⟨⟩
    decide
  have htight := scan_expanded hname hnothing nofun 2
  have hspaced := scan_expanded hname hplain hstart 2
  exact ⟨hname, hnothing, hplain, hstart, by decide +kernel, htight.2.1, by decide +kernel,
    hspaced.2.1⟩

end Template

end SqlTemplate
