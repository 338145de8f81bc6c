import SqlTemplate.Json.Reader
import SqlTemplate.Value
/-!
Values as plain JSON: `Value.toJson` uses the nearest JSON kind, so that bytes and infinite numbers
do not come back from `Value.ofJson`.
-/

namespace SqlTemplate

namespace Value

mutual

/-- The plain view: bytes become an array of integers, and a number that is not finite null. -/
def toJson : Value → Json
  | .null => .null
  | .bool b => .bool b
  | .int i => .int i.toInt
  | .float x => if x.isFinite then .float x else .null
  | .text s => .text s
  | .bytes bs => .arr (bs.map fun b => .int b.toNat)
  | .seq items => .arr (itemsToJson items)

def itemsToJson : List Value → List Json
  | [] => []
  | v :: vs => toJson v :: itemsToJson vs

end

mutual

/-- The value of a plain document. An integer of more than 64 bits becomes a floating-point number,
and an object the text that writes it, its members ordered by name. -/
def ofJson : Json → Value
  | .null => .null
  | .bool b => .bool b
  | .int i => if isInt64 i then .int (Int64.ofInt i) else .float (.ofInt i)
  | .float x => .float x
  | .text s => .text s
  | .arr items => .seq (itemsOfJson items)
  | .obj members => .text (Json.obj members).sorted.compact

def itemsOfJson : List Json → List Value
  | [] => []
  | j :: js => ofJson j :: itemsOfJson js

end

def readPlain? (s : String) : Option Value := (Json.read? s).map ofJson

end Value

def Context.readObject? (s : String) : Option Context :=
  match Json.read? s with
  | some (.obj members) => some (Dict.ofList (members.map fun m => (m.1, Value.ofJson m.2)))
  | _ => none

end SqlTemplate
