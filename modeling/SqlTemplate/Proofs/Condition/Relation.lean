import SqlTemplate.Proofs.Condition.Recognition
import SqlTemplate.Proofs.Value.Order
/-!
Conditions that relate two variables.

What is proved:
  1. `read_relation`, `holds_relation`: such a text is read as the relation, and is true where the
     values of the variables compare so.
  2. `holds_integers`: on integers it is exact, unless both are rounded to one number of 53
     significant bits. That happens from 2^53 on, to integers at most 1024 apart, and then they
     count as equal (`large_integers_equal`).
-/

namespace SqlTemplate.Condition

def IsVariableName (name : String) : Prop :=
  name ≠ "" ∧ name.toList.all isNameChar = true

theorem isLexeme_variable {name : String} (h : IsVariableName name) {rest : List Char}
    (hrest : ∀ c ∈ rest.head?, isNameChar c = false) :
    IsLexeme ('$' :: name.toList) (.var name) rest := by
  have hne : name.toList ≠ [] := fun hnil => h.1 (String.toList_eq_nil_iff.mp hnil)
  have hlexeme := IsLexeme.var hne ⟨h.2, hrest⟩
  rwa [String.ofList_toList] at hlexeme

theorem read_relation {x y : String} (hx : IsVariableName x) (hy : IsVariableName y) (op : RelOp) :
    read ("$" ++ x ++ " " ++ op.symbol ++ " $" ++ y).toList =
      .ok (.relates op (.var x) (.var y)) := by
  have hderives : Derives .disjunction [.var x, .op op, .var y] (.relates op (.var x) (.var y)) :=
    .disjunct (.conjunct (.relates op (.var x) (.var y)))
  have hright : Splits ('$' :: y.toList) [.var y] := by
    have hlast : IsLexeme ('$' :: y.toList) (.var y) [] := isLexeme_variable hy nofun
    have hsplits := Splits.lexeme hlast .done
    rwa [List.append_nil] at hsplits
  have hop : IsLexeme op.symbol.toList (.op op) (' ' :: '$' :: y.toList) :=
    isLexeme_op rfl fun _ => by simp
  have hleft : IsLexeme ('$' :: x.toList) (.var x)
      (' ' :: (op.symbol.toList ++ ' ' :: '$' :: y.toList)) :=
    isLexeme_variable hx fun c hc => by cases hc; rfl
  have hsplits := Splits.lexeme hleft (.space rfl (.lexeme hop (.space rfl hright)))
  refine read_iff_derives.mpr ⟨_, ?_, hderives⟩
  simpa [String.toList_append] using hsplits

theorem holds_relation {c : Context} {x y : String} (hx : IsVariableName x)
    (hy : IsVariableName y) {v w : Value} (hv : c.get? x = some v) (hw : c.get? y = some w)
    (op : RelOp) :
    holds (some c) ("$" ++ x ++ " " ++ op.symbol ++ " $" ++ y) = .ok (Value.compare op v w) := by
  have hvx : lookup? (some c) x = some v := hv
  have hwy : lookup? (some c) y = some w := hw
  have hknown : unknown? (some c) (.relates op (.var x) (.var y)) = none := by
    simp [unknown?, vars, hvx, hwy]
  have htruth : truth (some c) (.relates op (.var x) (.var y)) = Value.compare op v w := by
    simp only [truth, value, hvx, hwy, Option.getD_some, Value.truthy]
  rw [holds, parse, read_relation hx hy]
  simp only [evaluate, hknown, htruth]

/-- A relation of two variables that have integers is true where it holds of the integers, unless
both are rounded to one number: then it is true where it holds of equal numbers. Only integers from
2^53 on are rounded, and only those at most 1024 apart to one number. -/
theorem holds_integers {c : Context} {x y : String} (hx : IsVariableName x)
    (hy : IsVariableName y) {a b : Int64} (ha : c.get? x = some (.int a))
    (hb : c.get? y = some (.int b)) (op : RelOp) :
    holds (some c) ("$" ++ x ++ " " ++ op.symbol ++ " $" ++ y) =
      .ok (Value.compare op (.int a) (.int b)) ∧
    Value.compare op (.int a) (.int b) =
      op.holds (if Binary64.roundedInt a.toInt = Binary64.roundedInt b.toInt then .eq
        else compare a.toInt b.toInt) ∧
    (Binary64.roundedInt a.toInt = Binary64.roundedInt b.toInt → a = b ∨
      (2 ^ 53 ≤ a.toInt.natAbs ∧ 2 ^ 53 ≤ b.toInt.natAbs ∧
        (a.toInt - b.toInt).natAbs ≤ 1024)) := by
  refine ⟨holds_relation hx hy ha hb op, Value.compare_int op a b, fun heq => ?_⟩
  have hcases :=
    Binary64.eq_of_roundedInt_eq (Value.natAbs_toInt_le a) (Value.natAbs_toInt_le b) heq
  exact hcases.imp_left Int64.toInt_inj.mp

/-- Two integers that are rounded, but to different numbers. -/
theorem holds_integers_rounded :
    IsVariableName "a" ∧ IsVariableName "b" ∧
    (Dict.ofList [("a", Value.int 9007199254740993), ("b", .int 9007199254740995)]).get? "a" =
      some (.int 9007199254740993) ∧
    (Dict.ofList [("a", Value.int 9007199254740993), ("b", .int 9007199254740995)]).get? "b" =
      some (.int 9007199254740995) ∧
    holds (some (Dict.ofList [("a", .int 9007199254740993), ("b", .int 9007199254740995)]))
      "$a < $b" = .ok true := by
  have hx : IsVariableName "a" := ⟨by decide, by decide⟩
  have hy : IsVariableName "b" := ⟨by decide, by decide⟩
  have ha : (Dict.ofList [("a", Value.int 9007199254740993),
      ("b", .int 9007199254740995)]).get? "a" = some (.int 9007199254740993) := rfl
  have hb : (Dict.ofList [("a", Value.int 9007199254740993),
      ("b", .int 9007199254740995)]).get? "b" = some (.int 9007199254740995) := rfl
  obtain ⟨hholds, hcompare, _⟩ := holds_integers hx hy ha hb .lt
  have hexact : RelOp.lt.holds (if Binary64.roundedInt (9007199254740993 : Int64).toInt =
      Binary64.roundedInt (9007199254740995 : Int64).toInt then .eq
      else compare (9007199254740993 : Int64).toInt (9007199254740995 : Int64).toInt) = true := by
    decide +kernel
  rw [hcompare, hexact] at hholds
  exact ⟨hx, hy, ha, hb, hholds⟩

/-- Two integers that are rounded to one number count as equal. -/
theorem large_integers_equal :
    holds (some (Dict.ofList [("a", .int 9007199254740993), ("b", .int 9007199254740992)]))
      "$a = $b" = .ok true ∧
    holds (some (Dict.ofList [("a", .int 9007199254740993), ("b", .int 9007199254740992)]))
      "$a > $b" = .ok false ∧
    (9007199254740992 : Int64).toInt < (9007199254740993 : Int64).toInt := by
  decide +kernel

end SqlTemplate.Condition
