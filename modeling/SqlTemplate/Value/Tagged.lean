import SqlTemplate.Json.Reader
import SqlTemplate.Value
/-!
Values in tagged form, which names the kind of every value: an object whose member `t` is the kind
and whose member `v` is the content, which null does not have. `Value.toTagged` writes it and
`Value.ofTagged?` reads it. Members of other names are passed over, whatever they hold; in a content
that stands before its kind nothing is passed over.
-/

namespace SqlTemplate.Value

/-- The object that names a kind and holds a content of it. -/
def tagged (kind : String) (content : Json) : Json := .obj [("t", .text kind), ("v", content)]

mutual

/-- The tagged form. A number that is not finite has null for its content. -/
def toTagged : Value → Json
  | .null => .obj [("t", .text "Null")]
  | .bool b => tagged "Bool" (.bool b)
  | .int i => tagged "Int" (.int i.toInt)
  | .float x => tagged "Float" (if x.isFinite then .float x else .null)
  | .text s => tagged "Text" (.text s)
  | .bytes bs => tagged "Bytes" (.arr (bs.map fun b => .int b.toNat))
  | .seq items => tagged "Seq" (.arr (itemsToTagged items))

def itemsToTagged : List Value → List Json
  | [] => []
  | v :: vs => toTagged v :: itemsToTagged vs

end

/-- The members of an object that a tagged form is made of. -/
def tagMembers (members : List (String × Json)) : List (String × Json) :=
  members.filter fun m => m.1 == "t" || m.1 == "v"

/-- The parts of a tagged form: its kind, its content if it has one, and whether the content stands
first. -/
structure TagParts where
  kind : Json
  content : Option Json
  contentFirst : Bool

/-- The parts of a tagged form. In an object they stand in either order, each once, among members
of other names; an array of two holds them in order. -/
def tagParts? : Json → Option TagParts
  | .obj members =>
    match tagMembers members with
    | [(n, a)] => if n = "t" then some ⟨a, none, false⟩ else none
    | [(n, a), (m, b)] =>
      if n = "t" ∧ m = "v" then some ⟨a, some b, false⟩
      else if n = "v" ∧ m = "t" then some ⟨b, some a, true⟩
      else none
    | _ => none
  | .arr [kind, content] => some ⟨kind, some content, false⟩
  | _ => none

/-- The name of a kind: a text, or an object whose one member is null. In a content that stands
before its kind an empty object counts as null here. -/
def kindName? (early : Bool) : Json → Option String
  | .text s => some s
  | .obj [(s, .null)] => some s
  | .obj [(s, .obj [])] => if early then some s else none
  | _ => none

def bytesOf? : List Json → Option (List UInt8)
  | [] => some []
  | .int i :: js =>
    if 0 ≤ i ∧ i < 256 then (bytesOf? js).map (UInt8.ofNat i.toNat :: ·) else none
  | _ => none

theorem sizeOf_member {n : String} {j : Json} {members : List (String × Json)}
    (h : (n, j) ∈ members) : sizeOf j < sizeOf (Json.obj members) := by
  have := List.sizeOf_lt_of_mem h
  simp only [Prod.mk.sizeOf_spec, Json.obj.sizeOf_spec] at *
  omega

theorem sizeOf_tagParts? {j kind content : Json} {first : Bool}
    (h : tagParts? j = some ⟨kind, some content, first⟩) : sizeOf content < sizeOf j := by
  unfold tagParts? at h
  split at h
  · next members =>
    have hmem : ∀ m ∈ tagMembers members, m ∈ members := fun m hm =>
      (List.mem_filter.1 hm).1
    split at h
    · split at h <;> simp at h
    · next n a m b heq =>
      split at h
      · simp only [Option.some.injEq, TagParts.mk.injEq] at h
        obtain ⟨-, rfl, -⟩ := h
        exact sizeOf_member (hmem (m, b) (by simp [heq]))
      · split at h
        · simp only [Option.some.injEq, TagParts.mk.injEq] at h
          obtain ⟨-, rfl, -⟩ := h
          exact sizeOf_member (hmem (n, a) (by simp [heq]))
        · simp at h
    · simp at h
  · simp only [Option.some.injEq, TagParts.mk.injEq] at h
    obtain ⟨rfl, rfl, -⟩ := h
    simp only [Json.arr.sizeOf_spec, List.cons.sizeOf_spec, List.nil.sizeOf_spec]
    omega
  · simp at h

mutual

/-- The value of a tagged form, if it is one: the content has to be of the kind named. An integer
also serves as a floating-point number. `early` tells that the form is in a content that stands
before its kind. -/
def taggedValue? (early : Bool) (j : Json) : Option Value :=
  match h : tagParts? j with
  | none => none
  | some ⟨kind, none, _⟩ => if kindName? early kind = some "Null" then some .null else none
  | some ⟨kind, some content, first⟩ =>
    have hsize := sizeOf_tagParts? h
    match kindName? early kind, hc : content with
    | some "Null", .null => some .null
    | some "Bool", .bool b => some (.bool b)
    | some "Int", .int i => if isInt64 i then some (.int (Int64.ofInt i)) else none
    | some "Float", .int i => some (.float (.ofInt i))
    | some "Float", .float x => some (.float x)
    | some "Text", .text s => some (.text s)
    | some "Bytes", .arr items => (bytesOf? items).map .bytes
    | some "Seq", .arr items =>
      have : sizeOf items < sizeOf j := by
        rw [Json.arr.sizeOf_spec] at hsize; omega
      (taggedValues? (early || first) items).map .seq
    | _, _ => none
termination_by sizeOf j

/-- The values of tagged forms, if all are. -/
def taggedValues? (early : Bool) (items : List Json) : Option (List Value) :=
  match items with
  | [] => some []
  | j :: js =>
    match taggedValue? early j, taggedValues? early js with
    | some v, some vs => some (v :: vs)
    | _, _ => none
termination_by sizeOf items

end

def ofTagged? (j : Json) : Option Value := taggedValue? false j

end SqlTemplate.Value

namespace SqlTemplate.Json.Raw

mutual

/-- The document of a raw tagged form, nested at most `depth` deep, without the members that it
passes over. -/
def tagged? (depth : Nat) : Raw → Option Json
  | .obj members =>
    match depth with
    | 0 => none
    | depth + 1 => (taggedMembers? depth false members).map .obj
  | .arr [kind, content] =>
    match depth with
    | 0 => none
    | depth + 1 =>
      match kind.json? depth, content? depth content with
      | some a, some b => some (.arr [a, b])
      | _, _ => none
  | r => r.json? depth

/-- The document of a content whose kind is known: an array is of tagged forms. -/
def content? (depth : Nat) : Raw → Option Json
  | .arr items =>
    match depth with
    | 0 => none
    | depth + 1 => (taggedItems? depth items).map .arr
  | r => r.json? depth

/-- The documents of raw tagged forms. -/
def taggedItems? (depth : Nat) : List Raw → Option (List Json)
  | [] => some []
  | r :: rs =>
    match tagged? depth r with
    | none => none
    | some j => (taggedItems? depth rs).map (j :: ·)

/-- The members that are the parts of a tagged form; `known` tells that the kind came before. -/
def taggedMembers? (depth : Nat) (known : Bool) :
    List (List Nat × Raw) → Option (List (String × Json))
  | [] => some []
  | (codes, r) :: ms =>
    match text? codes with
    | none => none
    | some name =>
      if name = "t" then
        match r.json? depth with
        | none => none
        | some j => (taggedMembers? depth true ms).map ((name, j) :: ·)
      else if name = "v" then
        match if known then content? depth r else r.json? depth with
        | none => none
        | some j => (taggedMembers? depth known ms).map ((name, j) :: ·)
      else taggedMembers? depth known ms

end

end SqlTemplate.Json.Raw

namespace SqlTemplate.Value

def readTagged? (s : String) : Option Value :=
  (Json.Raw.read? s).bind fun r => (r.tagged? Json.maxDepth).bind ofTagged?

end SqlTemplate.Value
