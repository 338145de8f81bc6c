import SqlTemplate.Proofs.Json.RoundTrip
import SqlTemplate.Proofs.Value.Leaves
import SqlTemplate.Value.Tagged
/-!
The tagged form of values.

What is proved:
  1. `ofTagged?_finite`, `ofTagged?_infinite`: the tagged form of a value in which all numbers are
     finite is that of the value, and the tagged form of any other value is that of none.
  2. `tagged?_of_json?`: the reader of tagged forms, which passes over members of other names, reads
     the tagged form of a value as the reader of documents does.
  3. `read?_toTagged`: the text of a tagged form is read as the document that was written if it is not
     nested too deep and the numbers in it are read back.
  4. `readTagged?_compact`: so a value is read back from the text of its tagged form, or nothing is,
     where that text is read as the document that was written; by 3 it is (`readTagged?_toTagged`).
-/

namespace SqlTemplate

namespace Value

/-! ## Documents -/

theorem itemsToTagged_eq_map (items : List Value) : itemsToTagged items = items.map toTagged := by
  induction items with
  | nil => rfl
  | cons v vs ih => rw [itemsToTagged, ih, List.map_cons]

theorem tagParts?_tagged (kind : String) (content : Json) :
    tagParts? (tagged kind content) = some ⟨.text kind, some content, false⟩ := by
  simp [tagged, tagParts?, tagMembers]

theorem tagParts?_null : tagParts? (toTagged .null) = some ⟨.text "Null", none, false⟩ := by
  simp [toTagged, tagParts?, tagMembers]

theorem bytesOf?_map (bs : List UInt8) : bytesOf? (bs.map fun b => .int b.toNat) = some bs := by
  induction bs with
  | nil => rfl
  | cons b bs ih =>
    have hb : (b.toNat : Int) < 256 := Int.ofNat_lt.mpr b.toNat_lt
    rw [List.map_cons, bytesOf?, ih, if_pos ⟨Int.natCast_nonneg _, hb⟩, Option.map_some,
      Int.toNat_natCast, UInt8.ofNat_toNat]

theorem taggedValue?_toTagged (early : Bool) (v : Value) :
    taggedValue? early v.toTagged = match v with
      | .float x => if x.isFinite then some (.float x) else none
      | .seq items => (taggedValues? early (itemsToTagged items)).map .seq
      | v => some v := by
  cases v with
  | null =>
    rw [taggedValue?]
    split <;> rename_i h <;> rw [tagParts?_null] at h <;> cases h
    rfl
  | bool b =>
    rw [toTagged, taggedValue?]
    split <;> rename_i h <;> rw [tagParts?_tagged] at h <;> cases h
    rfl
  | int i =>
    rw [toTagged, taggedValue?]
    split <;> rename_i h <;> rw [tagParts?_tagged] at h <;> cases h
    exact (if_pos (isInt64_toInt i)).trans (by rw [Int64.ofInt_toInt])
  | float x =>
    cases hx : x.isFinite with
    | false =>
      simp only [toTagged, hx, Bool.false_eq_true, if_false]
      rw [taggedValue?]
      split <;> rename_i h <;> rw [tagParts?_tagged] at h <;> cases h
      rfl
    | true =>
      simp only [toTagged, hx, if_true]
      rw [taggedValue?]
      split <;> rename_i h <;> rw [tagParts?_tagged] at h <;> cases h
      rfl
  | text s =>
    rw [toTagged, taggedValue?]
    split <;> rename_i h <;> rw [tagParts?_tagged] at h <;> cases h
    rfl
  | bytes bs =>
    rw [toTagged, taggedValue?]
    split <;> rename_i h <;> rw [tagParts?_tagged] at h <;> cases h
    exact congrArg (Option.map Value.bytes) (bytesOf?_map bs)
  | seq items =>
    rw [toTagged, taggedValue?]
    split <;> rename_i h <;> rw [tagParts?_tagged] at h <;> cases h
    rw [Bool.or_false]
    rfl

theorem taggedValues?_eq_some {early : Bool} {items : List Value}
    (h : ∀ v ∈ items, taggedValue? early v.toTagged = some v) :
    taggedValues? early (items.map toTagged) = some items := by
  induction items with
  | nil => rw [List.map_nil, taggedValues?]
  | cons v vs ih =>
    obtain ⟨hv, hvs⟩ := List.forall_mem_cons.mp h
    rw [List.map_cons, taggedValues?, hv, ih hvs]

theorem taggedValues?_eq_none {early : Bool} {js : List Json}
    (h : ∃ j ∈ js, taggedValue? early j = none) : taggedValues? early js = none := by
  induction js with
  | nil =>
    obtain ⟨j, hj, -⟩ := h
    cases hj
  | cons j js ih =>
    obtain ⟨k, hk, hnone⟩ := h
    rw [taggedValues?]
    rcases List.mem_cons.mp hk with rfl | hk
    · rw [hnone]
    · rw [ih ⟨k, hk, hnone⟩]
      cases taggedValue? early j <;> rfl

/-- The tagged form of a value in which all numbers are finite is that of the value. -/
theorem ofTagged?_finite {v : Value} (h : ∀ x, IsLeaf (.float x) v → x.isFinite = true) :
    ofTagged? v.toTagged = some v := by
  unfold ofTagged?
  induction v using inductionOnItems with
  | leaf v hv =>
    rw [taggedValue?_toTagged]
    cases v with
    | float x => simp only [h x (.self rfl), if_true]
    | seq items => cases hv
    | _ => rfl
  | seq items ih =>
    have hitems := taggedValues?_eq_some fun v hv => ih v hv fun x hx => h x (.item hv hx)
    simp only [taggedValue?_toTagged, itemsToTagged_eq_map, hitems, Option.map_some]

/-- The tagged form of a value with a number that is not finite is that of no value. -/
theorem ofTagged?_infinite {x : Binary64} (hx : x.isFinite = false) {v : Value}
    (h : IsLeaf (.float x) v) : ofTagged? v.toTagged = none := by
  unfold ofTagged?
  induction h with
  | self => simp only [taggedValue?_toTagged, hx, Bool.false_eq_true, if_false]
  | item hv _ ih =>
    have hitems := taggedValues?_eq_none ⟨_, List.mem_map_of_mem hv, ih⟩
    simp only [taggedValue?_toTagged, itemsToTagged_eq_map, hitems, Option.map_none]

end Value

/-! ## Raw documents -/

namespace Json

def isScalar : Json → Bool
  | .arr _ | .obj _ => false
  | _ => true

theorem Lexeme.json?_cases {l : Lexeme} {j : Json} (h : l.json? = some j) :
    (∃ i, j = .int i) ∨ ∃ x, j = .float x := by
  unfold Lexeme.json? at h
  simp only at h
  split at h
  · split at h
    · cases h
      exact .inl ⟨_, rfl⟩
    · split at h <;> cases h
      · exact .inr ⟨_, rfl⟩
      · exact .inl ⟨_, rfl⟩
  · obtain ⟨_, _, rfl⟩ := Option.map_eq_some_iff.mp h
    exact .inr ⟨_, rfl⟩

namespace Raw

variable {depth : Nat} {r : Raw}

/-- What a document was written as. One that is no object and no array is read by every reader
alike. -/
theorem json?_cases {j : Json} (h : r.json? depth = some j) :
    (∃ n members ms, depth = n + 1 ∧ r = .obj members ∧ j = .obj ms ∧
      jsonMembers? n members = some ms) ∨
    (∃ n items js, depth = n + 1 ∧ r = .arr items ∧ j = .arr js ∧ jsonItems? n items = some js) ∨
    j.isScalar = true ∧ r.tagged? depth = some j ∧ r.content? depth = some j := by
  cases r with
  | obj members =>
    cases depth with
    | zero => cases h
    | succ n =>
      obtain ⟨ms, hms, rfl⟩ := Option.map_eq_some_iff.mp h
      exact .inl ⟨n, members, ms, rfl, rfl, rfl, hms⟩
  | arr items =>
    cases depth with
    | zero => cases h
    | succ n =>
      obtain ⟨js, hjs, rfl⟩ := Option.map_eq_some_iff.mp h
      exact .inr (.inl ⟨n, items, js, rfl, rfl, rfl, hjs⟩)
  | number l =>
    rcases Lexeme.json?_cases h with ⟨_, rfl⟩ | ⟨_, rfl⟩ <;>
      exact .inr (.inr ⟨rfl, h, h⟩)
  | text codes =>
    obtain ⟨_, _, rfl⟩ := Option.map_eq_some_iff.mp h
    exact .inr (.inr ⟨rfl, h, h⟩)
  | null | bool =>
    cases h
    exact .inr (.inr ⟨rfl, rfl, rfl⟩)

theorem read_scalar {j : Json} (h : r.json? depth = some j) (hj : j.isScalar = true) :
    r.tagged? depth = some j ∧ r.content? depth = some j := by
  rcases json?_cases h with ⟨_, _, _, _, _, rfl, _⟩ | ⟨_, _, _, _, _, rfl, _⟩ | ⟨_, hread⟩
  · cases hj
  · cases hj
  · exact hread

theorem jsonItems?_cons {rs : List Raw} {js : List Json}
    (h : jsonItems? depth (r :: rs) = some js) :
    ∃ j rest, js = j :: rest ∧ r.json? depth = some j ∧ jsonItems? depth rs = some rest := by
  rw [jsonItems?] at h
  split at h
  · cases h
  · rename_i j hj
    obtain ⟨rest, hrest, rfl⟩ := Option.map_eq_some_iff.mp h
    exact ⟨j, rest, rfl, hj, hrest⟩

theorem jsonMembers?_eq_cons {members : List (List Nat × Raw)} {name : String} {j : Json}
    {rest : List (String × Json)} (h : jsonMembers? depth members = some ((name, j) :: rest)) :
    ∃ codes r ms, members = (codes, r) :: ms ∧ text? codes = some name ∧ r.json? depth = some j ∧
      jsonMembers? depth ms = some rest := by
  cases members with
  | nil => cases h
  | cons m ms =>
    rw [jsonMembers?] at h
    split at h
    · rename_i hname hj
      obtain ⟨_, hrest, heq⟩ := Option.map_eq_some_iff.mp h
      cases heq
      exact ⟨m.1, m.2, ms, rfl, hname, hj, hrest⟩
    · cases h

theorem jsonMembers?_eq_nil {members : List (List Nat × Raw)}
    (h : jsonMembers? depth members = some []) : members = [] := by
  cases members with
  | nil => rfl
  | cons m ms =>
    rw [jsonMembers?] at h
    split at h
    · obtain ⟨_, _, heq⟩ := Option.map_eq_some_iff.mp h
      cases heq
    · cases h

theorem taggedItems?_of_jsonItems? {rs : List Raw} {js : List Json}
    (hitems : ∀ j ∈ js, ∀ r : Raw, r.json? depth = some j → r.tagged? depth = some j)
    (h : jsonItems? depth rs = some js) : taggedItems? depth rs = some js := by
  induction rs generalizing js with
  | nil =>
    rw [jsonItems?] at h
    rw [taggedItems?, h]
  | cons r rs ih =>
    obtain ⟨j, rest, rfl, hj, hrest⟩ := jsonItems?_cons h
    obtain ⟨hfirst, hothers⟩ := List.forall_mem_cons.mp hitems
    rw [taggedItems?, hfirst r hj, ih hothers hrest]
    rfl

theorem content?_arr {js : List Json}
    (hitems : ∀ j ∈ js, ∀ (n : Nat) (r : Raw), r.json? n = some j → r.tagged? n = some j)
    (h : r.json? depth = some (.arr js)) : r.content? depth = some (.arr js) := by
  rcases json?_cases h with ⟨_, _, _, _, _, heq, _⟩ | ⟨n, rs, ks, rfl, rfl, heq, hks⟩ | ⟨hscalar, _⟩
  · cases heq
  · cases heq
    rw [content?, taggedItems?_of_jsonItems? (fun j hj r => hitems j hj n r) hks]
    rfl
  · cases hscalar

theorem tagged?_kind {kind : Json} (h : r.json? depth = some (.obj [("t", kind)])) :
    r.tagged? depth = some (.obj [("t", kind)]) := by
  rcases json?_cases h with ⟨n, members, ms, rfl, rfl, heq, hms⟩ | ⟨_, _, _, _, _, heq, _⟩ |
    ⟨hscalar, _⟩
  · cases heq
    obtain ⟨ct, k, rest, rfl, ht, hk, hrest⟩ := jsonMembers?_eq_cons hms
    obtain rfl := jsonMembers?_eq_nil hrest
    simp only [tagged?, taggedMembers?, ht, hk, if_true, Option.map_some]
  · cases heq
  · cases hscalar

theorem tagged?_obj {kind content : Json}
    (hcontent : ∀ (n : Nat) (r : Raw), r.json? n = some content → r.content? n = some content)
    (h : r.json? depth = some (.obj [("t", kind), ("v", content)])) :
    r.tagged? depth = some (.obj [("t", kind), ("v", content)]) := by
  rcases json?_cases h with ⟨n, members, ms, rfl, rfl, heq, hms⟩ | ⟨_, _, _, _, _, heq, _⟩ |
    ⟨hscalar, _⟩
  · cases heq
    obtain ⟨ct, k, rest, rfl, ht, hk, hrest⟩ := jsonMembers?_eq_cons hms
    obtain ⟨cv, c, none, rfl, hv, hc, hnone⟩ := jsonMembers?_eq_cons hrest
    obtain rfl := jsonMembers?_eq_nil hnone
    simp only [tagged?, taggedMembers?, ht, hk, hv, hcontent n c hc, if_true, Option.map_some,
      String.reduceEq, if_false]
  · cases heq
  · cases hscalar

end Raw

end Json

namespace Value

/-- The reader of tagged forms reads the tagged form of a value as the reader of documents does. -/
theorem tagged?_of_json? {v : Value} {depth : Nat} {r : Json.Raw}
    (h : r.json? depth = some v.toTagged) : r.tagged? depth = some v.toTagged := by
  induction v using inductionOnItems generalizing depth r with
  | leaf v hv =>
    cases v with
    | null =>
      rw [toTagged] at h ⊢
      exact Json.Raw.tagged?_kind h
    | bool b => exact Json.Raw.tagged?_obj (fun _ _ hc => (Json.Raw.read_scalar hc rfl).2) h
    | int i => exact Json.Raw.tagged?_obj (fun _ _ hc => (Json.Raw.read_scalar hc rfl).2) h
    | text s => exact Json.Raw.tagged?_obj (fun _ _ hc => (Json.Raw.read_scalar hc rfl).2) h
    | float x =>
      have hscalar : (if x.isFinite then Json.float x else .null).isScalar = true := by
        split <;> rfl
      exact Json.Raw.tagged?_obj (fun _ _ hc => (Json.Raw.read_scalar hc hscalar).2) h
    | bytes bs =>
      refine Json.Raw.tagged?_obj (fun n c hc => Json.Raw.content?_arr (fun j hj m q hq => ?_) hc) h
      obtain ⟨b, _, rfl⟩ := List.mem_map.mp hj
      exact (Json.Raw.read_scalar hq rfl).1
    | seq items => cases hv
  | seq items ih =>
    rw [toTagged, itemsToTagged_eq_map] at h ⊢
    refine Json.Raw.tagged?_obj (fun n c hc => Json.Raw.content?_arr (fun j hj m q hq => ?_) hc) h
    obtain ⟨v, hv, rfl⟩ := List.mem_map.mp hj
    exact ih v hv hq

/-! ## Texts -/

mutual

/-- How deep the tagged form of a value is nested. -/
def levels : Value → Nat
  | .seq items => levelsOfItems items + 2
  | .bytes _ => 2
  | _ => 1

def levelsOfItems : List Value → Nat
  | [] => 0
  | v :: vs => max (levels v) (levelsOfItems vs)

end

theorem levels_le_of_mem {v : Value} {items : List Value} (h : v ∈ items) :
    levels v ≤ levelsOfItems items := by
  induction h with
  | head => exact Nat.le_max_left ..
  | tail _ _ ih => exact Nat.le_trans ih (Nat.le_max_right ..)

theorem writable_tagged (kind : String) {depth : Nat} {content : Json}
    (h : Json.Writable depth content) : Json.Writable (depth + 1) (tagged kind content) := by
  refine .obj fun m hm => ?_
  rcases List.mem_cons.mp hm with rfl | hm
  · exact .text kind
  · rcases List.mem_singleton.mp hm with rfl
    exact h

/-- A tagged form can be written if the finite numbers in it are read back. -/
theorem writable_toTagged {v : Value}
    (h : ∀ x, IsLeaf (.float x) v → x.isFinite = true → Json.ReadsBack x) :
    Json.Writable (levels v) v.toTagged := by
  induction v using inductionOnItems with
  | leaf v hv =>
    cases v with
    | null =>
      refine .obj fun m hm => ?_
      rcases List.mem_singleton.mp hm with rfl
      exact .text "Null"
    | bool b => exact writable_tagged "Bool" (.bool b)
    | int i =>
      have hmaximum : Json.maxSignificand = 18446744073709551615 := rfl
      have hlt := i.toInt_lt
      exact writable_tagged "Int" (.int i.minValue_le_toInt (by omega))
    | float x =>
      rw [toTagged]
      split
      · rename_i hx
        exact writable_tagged "Float" (.float (h x (.self rfl) hx))
      · exact writable_tagged "Float" .null
    | text s => exact writable_tagged "Text" (.text s)
    | bytes bs =>
      refine writable_tagged "Bytes" (.arr fun j hj => ?_)
      obtain ⟨b, _, rfl⟩ := List.mem_map.mp hj
      have hb : (b.toNat : Int) < 256 := Int.ofNat_lt.mpr b.toNat_lt
      have hmaximum : Json.maxSignificand = 18446744073709551615 := rfl
      have hminimum : Int64.minValue.toInt = -9223372036854775808 := rfl
      exact .int (by omega) (by omega)
    | seq items => cases hv
  | seq items ih =>
    rw [toTagged, itemsToTagged_eq_map]
    refine writable_tagged "Seq" (.arr fun j hj => ?_)
    obtain ⟨v, hv, rfl⟩ := List.mem_map.mp hj
    exact (ih v hv fun x hx => h x (.item hv hx)).mono (levels_le_of_mem hv)

/-- The text of a tagged form is read as the document that was written, if it is not nested too deep
and the finite numbers in it are read back. -/
theorem read?_toTagged {v : Value} (hdepth : levels v ≤ Json.maxDepth)
    (h : ∀ x, IsLeaf (.float x) v → x.isFinite = true → Json.ReadsBack x) :
    Json.read? v.toTagged.compact = some v.toTagged :=
  Json.read?_compact ((writable_toTagged h).mono hdepth)

theorem readTagged?_of_read? {v : Value}
    (hread : Json.read? v.toTagged.compact = some v.toTagged) :
    readTagged? v.toTagged.compact = ofTagged? v.toTagged := by
  obtain ⟨r, hr, hjson⟩ := Option.bind_eq_some_iff.mp hread
  rw [readTagged?, hr, Option.bind_some, tagged?_of_json? hjson, Option.bind_some]

/-- A value that is not nested too deep, in which the finite numbers are read back, is read back from
the text of its tagged form if all its numbers are finite, and from that of any other none is. -/
theorem readTagged?_toTagged {v : Value} (hdepth : levels v ≤ Json.maxDepth)
    (h : ∀ x, IsLeaf (.float x) v → x.isFinite = true → Json.ReadsBack x) :
    ((∀ x, IsLeaf (.float x) v → x.isFinite = true) →
      readTagged? v.toTagged.compact = some v) ∧
    ((∃ x, IsLeaf (.float x) v ∧ x.isFinite = false) →
      readTagged? v.toTagged.compact = none) := by
  rw [readTagged?_of_read? (read?_toTagged hdepth h)]
  exact ⟨ofTagged?_finite, fun ⟨x, hx, hinfinite⟩ => ofTagged?_infinite hinfinite hx⟩

/-- A value in which all numbers are finite is read back from the text of its tagged form, and from
that of any other value none is, where the text is read as the document that was written. -/
theorem readTagged?_compact {v : Value}
    (hread : Json.read? v.toTagged.compact = some v.toTagged) :
    ((∀ x, IsLeaf (.float x) v → x.isFinite = true) →
      readTagged? v.toTagged.compact = some v) ∧
    ((∃ x, IsLeaf (.float x) v ∧ x.isFinite = false) →
      readTagged? v.toTagged.compact = none) := by
  rw [readTagged?_of_read? hread]
  exact ⟨ofTagged?_finite, fun ⟨x, hx, hinfinite⟩ => ofTagged?_infinite hinfinite hx⟩

/-- A value of every kind, and one with a number beside it that is not finite. -/
theorem readTagged?_compact_half :
    let half : Binary64 := .ofDecimal false ⟨5, -1⟩
    let items : Value :=
      .seq [.float half, .text "\x22\\\n", .bytes [0, 255], .seq [.null, .bool true, .int (-9)]]
    let others : Value := .seq [items, .float .nan]
    (Json.read? items.toTagged.compact = some items.toTagged ∧
      (∀ x, IsLeaf (.float x) items → x.isFinite = true) ∧
      readTagged? items.toTagged.compact = some items) ∧
    (Json.read? others.toTagged.compact = some others.toTagged ∧
      (∃ x, IsLeaf (.float x) others ∧ x.isFinite = false) ∧
      readTagged? others.toTagged.compact = none) := by
  intro half items others
  have hitems : ∀ x, IsLeaf (.float x) items → x = half := by
    intro x hx
    obtain ⟨v, hv, hx⟩ := isLeaf_seq_iff.mp hx
    simp only [List.mem_cons, List.not_mem_nil, or_false] at hv
    rcases hv with rfl | rfl | rfl | rfl
    · exact float.inj ((isLeaf_iff_eq rfl).mp hx)
    · cases hx
    · cases hx
    · obtain ⟨v, hv, hx⟩ := isLeaf_seq_iff.mp hx
      simp only [List.mem_cons, List.not_mem_nil, or_false] at hv
      rcases hv with rfl | rfl | rfl <;> cases hx
  have hothers : ∀ x, IsLeaf (.float x) others → x.isFinite = true → x = half := by
    intro x hx hfinite
    rcases isLeaf_seq_iff.mp hx with ⟨v, hv, hx⟩
    rcases List.mem_cons.mp hv with rfl | hv
    · exact hitems x hx
    · rw [List.mem_singleton.mp hv, isLeaf_iff_eq rfl] at hx
      cases hx
      cases hfinite
  have hread : Json.read? items.toTagged.compact = some items.toTagged :=
    read?_toTagged (by decide) fun x hx _ => hitems x hx ▸ Json.readsBack_half
  have hreadOthers : Json.read? others.toTagged.compact = some others.toTagged :=
    read?_toTagged (by decide) fun x hx hfinite => hothers x hx hfinite ▸ Json.readsBack_half
  have hhalf : half.isFinite = true := Json.readsBack_half.isFinite
  have hfinite : ∀ x, IsLeaf (.float x) items → x.isFinite = true :=
    fun x hx => hitems x hx ▸ hhalf
  have hinfinite : ∃ x, IsLeaf (.float x) others ∧ x.isFinite = false :=
    ⟨.nan, .item (List.mem_cons_of_mem _ List.mem_cons_self) (.self rfl), rfl⟩
  exact ⟨⟨hread, hfinite, (readTagged?_compact hread).1 hfinite⟩,
    hreadOthers, hinfinite, (readTagged?_compact hreadOthers).2 hinfinite⟩

end Value

end SqlTemplate
