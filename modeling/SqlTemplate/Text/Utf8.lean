/-!
UTF-8: how many bytes a text takes, and reading bytes as text when they may be malformed. Each
maximal prefix of a well-formed sequence that the bytes break off, and each other byte that fits
nowhere, reads as one replacement character U+FFFD.
-/

namespace SqlTemplate.Text

def byteLength (cs : List Char) : Nat := cs.foldr (fun c n => c.utf8Size + n) 0

theorem byteLength_eq (cs : List Char) : byteLength cs = (String.ofList cs).utf8ByteSize := by
  induction cs with
  | nil => rfl
  | cons c cs ih =>
    rw [← List.singleton_append, String.ofList_append, String.utf8ByteSize_append,
      ← String.singleton_eq_ofList, String.utf8ByteSize_singleton, ← ih]
    rfl

def encode (cs : List Char) : List UInt8 := cs.flatMap String.utf8EncodeChar

/-- What a first byte announces: its bits of the character, how many continuation bytes follow,
and the range the first of them must be in. The narrowed ranges leave out overlong forms,
surrogates and what lies above U+10FFFF. -/
structure Lead where
  bits : Nat
  more : Nat
  low : Nat
  high : Nat

/-- The announcement of a first byte outside ASCII, if it is one. -/
def lead? (b : Nat) : Option Lead :=
  if 0xC2 ≤ b && b ≤ 0xDF then some ⟨b - 0xC0, 1, 0x80, 0xBF⟩
  else if b == 0xE0 then some ⟨b - 0xE0, 2, 0xA0, 0xBF⟩
  else if b == 0xED then some ⟨b - 0xE0, 2, 0x80, 0x9F⟩
  else if 0xE1 ≤ b && b ≤ 0xEF then some ⟨b - 0xE0, 2, 0x80, 0xBF⟩
  else if b == 0xF0 then some ⟨b - 0xF0, 3, 0x90, 0xBF⟩
  else if b == 0xF4 then some ⟨b - 0xF0, 3, 0x80, 0x8F⟩
  else if 0xF1 ≤ b && b ≤ 0xF3 then some ⟨b - 0xF0, 3, 0x80, 0xBF⟩
  else none

/-- Reads `more` continuation bytes after `bits`: the character, or the replacement character when
a byte outside the range comes first, with what is left to read. -/
def continued (bits : Nat) : (more low high : Nat) → List UInt8 → Char × List UInt8
  | 0, _, _, rest => (Char.ofNat bits, rest)
  | _ + 1, _, _, [] => ('\uFFFD', [])
  | more + 1, low, high, b :: rest =>
    if low ≤ b.toNat && b.toNat ≤ high then
      continued (bits * 64 + b.toNat % 64) more 0x80 0xBF rest
    else ('\uFFFD', b :: rest)

theorem length_continued (bits more low high : Nat) (bytes : List UInt8) :
    (continued bits more low high bytes).2.length ≤ bytes.length := by
  fun_induction continued bits more low high bytes with
  | case1 => simp
  | case2 => simp
  | case3 bits more low high b rest h ih => exact Nat.le_succ_of_le ih
  | case4 => simp

/-- The text of the bytes, malformed parts replaced. -/
def lossy : List UInt8 → List Char
  | [] => []
  | b :: rest =>
    if b.toNat < 0x80 then Char.ofNat b.toNat :: lossy rest
    else
      match lead? b.toNat with
      | none => '\uFFFD' :: lossy rest
      | some l =>
        have := length_continued l.bits l.more l.low l.high rest
        (continued l.bits l.more l.low l.high rest).1 ::
          lossy (continued l.bits l.more l.low l.high rest).2
termination_by bytes => bytes.length
decreasing_by all_goals simp_wf <;> omega

end SqlTemplate.Text
