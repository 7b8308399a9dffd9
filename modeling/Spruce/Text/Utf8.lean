import Spruce.Text.Basic

/-!
# Text as bytes

Writing encodes text in UTF-8. Reading either refuses bytes that are not UTF-8, or puts U+FFFD in
place of each longest piece that could begin a character but does not complete one.
-/

namespace Spruce.Text

/-- The UTF-8 form of a text. -/
def encode (t : Text) : ByteArray := (String.ofList t).toByteArray

/-- The text whose UTF-8 form the bytes are, if there is one. -/
def decode? (bytes : ByteArray) : Option Text := bytes.utf8Decode?.map Array.toList

/-- What has been encoded is read back as it was. -/
theorem decode?_encode (t : Text) : decode? (encode t) = some t := by
  simp [decode?, encode, List.utf8Decode?_utf8Encode]

/-- The number of bytes in the UTF-8 form of a text. -/
def byteCount (t : Text) : Nat := t.foldr (fun c n => c.utf8Size + n) 0

/-- What the first byte of a character fixes: the number of bytes that follow it, and the least
and greatest value of the first of them. -/
def lead? (byte : UInt8) : Option (Nat × UInt8 × UInt8) :=
  if 0xC2 ≤ byte && byte ≤ 0xDF then some (1, 0x80, 0xBF)
  else if byte == 0xE0 then some (2, 0xA0, 0xBF)
  else if byte == 0xED then some (2, 0x80, 0x9F)
  else if 0xE1 ≤ byte && byte ≤ 0xEF then some (2, 0x80, 0xBF)
  else if byte == 0xF0 then some (3, 0x90, 0xBF)
  else if byte == 0xF4 then some (3, 0x80, 0x8F)
  else if 0xF1 ≤ byte && byte ≤ 0xF3 then some (3, 0x80, 0xBF)
  else none

/-- The bytes, at most `count`, that continue a character; the first lies between `low` and
`high`, the others are any continuation bytes. -/
def continuation : Nat → UInt8 → UInt8 → List UInt8 → List UInt8
  | count + 1, low, high, byte :: rest =>
    if low ≤ byte && byte ≤ high then byte :: continuation count 0x80 0xBF rest else []
  | _, _, _, _ => []

/-- The character with the given first byte and continuation. -/
def assemble (first : UInt8) (others : List UInt8) : Char :=
  let payload := first.toNat % Nat.pow 2 (6 - others.length)
  Char.ofNat (others.foldl (fun n byte => 64 * n + byte.toNat % 64) payload)

/-- The text of any bytes, with U+FFFD for what is not UTF-8. The counter says how many bytes of
the last character are still to be passed over. -/
def decodeLossyFrom : Nat → List UInt8 → Text
  | _, [] => []
  | passed + 1, _ :: rest => decodeLossyFrom passed rest
  | 0, byte :: rest =>
    if byte < 0x80 then Char.ofNat byte.toNat :: decodeLossyFrom 0 rest
    else match lead? byte with
      | none => '\ufffd' :: decodeLossyFrom 0 rest
      | some (count, low, high) =>
        let others := continuation count low high rest
        let c := if others.length = count then assemble byte others else '\ufffd'
        c :: decodeLossyFrom others.length rest

/-- The text of any bytes, with U+FFFD for what is not UTF-8. -/
def decodeLossy (bytes : ByteArray) : Text := decodeLossyFrom 0 bytes.toList

end Spruce.Text
