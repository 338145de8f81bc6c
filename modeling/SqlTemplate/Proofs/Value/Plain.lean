import SqlTemplate.Proofs.Value.Leaves
import SqlTemplate.Value.Json
/-!
The plain form of values.

What is proved:
  1. `ofJson_toJson_leaf`: which values that are no sequences come back from their plain form; the
     items of a sequence come back one by one, each in its place (`ofJson_toJson_seq`).
  2. `ofJson_toJson_iff`: so a value comes back as it was if there are no bytes and only finite numbers
     in it, and from the plain form of any other value another one comes back.
-/

namespace SqlTemplate.Value

theorem itemsToJson_eq_map (items : List Value) : itemsToJson items = items.map toJson := by
  induction items with
  | nil => rfl
  | cons v vs ih => rw [itemsToJson, ih, List.map_cons]

theorem itemsOfJson_eq_map (js : List Json) : itemsOfJson js = js.map ofJson := by
  induction js with
  | nil => rfl
  | cons j js ih => rw [itemsOfJson, ih, List.map_cons]

theorem ofJson_arr (js : List Json) : ofJson (.arr js) = .seq (js.map ofJson) := by
  rw [ofJson, itemsOfJson_eq_map]

theorem ofJson_toJson_seq (items : List Value) :
    ofJson (toJson (.seq items)) = .seq (items.map fun v => ofJson v.toJson) := by
  rw [toJson, itemsToJson_eq_map, ofJson_arr, List.map_map]
  rfl

theorem ofJson_toJson_int (i : Int64) : ofJson (toJson (.int i)) = .int i := by
  rw [toJson, ofJson, if_pos (isInt64_toInt i), Int64.ofInt_toInt]

theorem ofJson_toJson_float (x : Binary64) :
    ofJson (toJson (.float x)) = if x.isFinite then .float x else .null := by
  rw [toJson]
  split <;> rfl

theorem ofJson_toJson_bytes (bs : List UInt8) : ∃ items, ofJson (toJson (.bytes bs)) = .seq items :=
  ⟨_, ofJson_arr _⟩

/-- Whether the plain form keeps a value that is no sequence. -/
def isPlain : Value → Bool
  | .bytes _ => false
  | .float x => x.isFinite
  | _ => true

theorem ofJson_toJson_leaf {v : Value} (hv : v.seq? = none) :
    ofJson v.toJson = v ↔ v.isPlain = true := by
  cases v with
  | null | bool | text => exact iff_of_true rfl rfl
  | int i => exact iff_of_true (ofJson_toJson_int i) rfl
  | float x =>
    rw [ofJson_toJson_float, isPlain]
    cases x.isFinite <;> simp
  | bytes bs =>
    obtain ⟨items, hitems⟩ := ofJson_toJson_bytes bs
    rw [hitems]
    exact iff_of_false nofun nofun
  | seq items => cases hv

/-- A value comes back as it was if its leaves do. -/
theorem ofJson_toJson_eq_self_iff {v : Value} :
    ofJson v.toJson = v ↔ ∀ x, IsLeaf x v → x.isPlain = true := by
  induction v using inductionOnItems with
  | leaf v hv => simp only [ofJson_toJson_leaf hv, isLeaf_iff_eq hv, forall_eq]
  | seq items ih =>
    have hitems : items.map (fun v => ofJson v.toJson) = items ↔
        ∀ v ∈ items, ofJson v.toJson = id v := by
      rw [← List.map_inj_left, List.map_id]
    rw [ofJson_toJson_seq, seq.injEq, hitems]
    constructor
    · intro h x hx
      obtain ⟨v, hv, hx⟩ := isLeaf_seq_iff.mp hx
      exact (ih v hv).mp (h v hv) x hx
    · intro h v hv
      exact (ih v hv).mpr fun x hx => h x (.item hv hx)

theorem forall_isPlain_iff {v : Value} : (∀ x, IsLeaf x v → x.isPlain = true) ↔
    (∀ bs, ¬IsLeaf (.bytes bs) v) ∧ ∀ x, IsLeaf (.float x) v → x.isFinite = true := by
  constructor
  · intro h
    exact ⟨fun bs hbs => absurd (h _ hbs) nofun, fun x hx => h _ hx⟩
  · intro ⟨hbytes, hfloats⟩ x hx
    cases x with
    | bytes bs => exact absurd hx (hbytes bs)
    | float x => exact hfloats x hx
    | _ => rfl

/-- A value comes back from its plain form exactly if it holds no bytes, not even none of them, and no
number that is not finite, however deep. No floating-point number comes back as an integer, also where
it is whole, and no integer as a floating-point number; in a sequence every item comes back in its
place. -/
theorem ofJson_toJson_iff (v : Value) :
    (ofJson v.toJson = v ↔
      (∀ bs, ¬IsLeaf (.bytes bs) v) ∧ ∀ x, IsLeaf (.float x) v → x.isFinite = true) ∧
    (∀ x i, ofJson (toJson (.float x)) ≠ .int i ∧ ofJson (toJson (.int i)) ≠ .float x) ∧
    ∀ items, ofJson (toJson (.seq items)) = .seq (items.map fun v => ofJson v.toJson) := by
  refine ⟨ofJson_toJson_eq_self_iff.trans forall_isPlain_iff, fun x i => ⟨?_, ?_⟩,
    ofJson_toJson_seq⟩
  · rw [ofJson_toJson_float]
    split <;> nofun
  · rw [ofJson_toJson_int]
    nofun

end SqlTemplate.Value
