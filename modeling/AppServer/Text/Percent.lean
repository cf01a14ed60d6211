/-!
# Percent-encoding

A `%` followed by two hexadecimal digits stands for the byte they spell; every other byte stands
for itself. A text whose decoded bytes are not UTF-8 has no decoded form.
-/

namespace AppServer.Text.Percent

/-- The value of a hexadecimal digit, given as an ASCII byte. -/
def digitValue? (b : UInt8) : Option UInt8 :=
  if 0x30 ≤ b && b ≤ 0x39 then some (b - 0x30)
  else if 0x41 ≤ b && b ≤ 0x46 then some (b - 0x37)
  else if 0x61 ≤ b && b ≤ 0x66 then some (b - 0x57)
  else none

/-- Replaces each `%` and the two digits after it by their byte. -/
def decodeBytes : List UInt8 → List UInt8
  | [] => []
  | [b] => [b]
  | [b, c] => [b, c]
  | b :: c :: d :: rest =>
    if b = 0x25 then
      match digitValue? c, digitValue? d with
      | some hi, some lo => (hi * 16 + lo) :: decodeBytes rest
      | _, _ => b :: decodeBytes (c :: d :: rest)
    else b :: decodeBytes (c :: d :: rest)

/-- The decoded text, if its bytes are UTF-8. -/
def decode? (s : String) : Option String :=
  String.fromUTF8? (decodeBytes s.toUTF8.toList).toByteArray

/-- The decoded text, or the text itself if it has no decoded form. -/
def decodeOrKeep (s : String) : String :=
  (decode? s).getD s

/-- The upper-case hexadecimal digit of a value below 16. -/
def digit (n : UInt8) : Char :=
  if n < 10 then Char.ofNat (0x30 + n.toNat) else Char.ofNat (0x37 + n.toNat)

/-- Bytes that need no encoding anywhere in a URI. -/
def isUnreserved (b : UInt8) : Bool :=
  (0x30 ≤ b && b ≤ 0x39) || (0x41 ≤ b && b ≤ 0x5A) || (0x61 ≤ b && b ≤ 0x7A) ||
    b == 0x2D || b == 0x2E || b == 0x5F || b == 0x7E

/-- One byte, spelled by its digits unless it is unreserved. -/
def encodeByte (b : UInt8) : List Char :=
  if isUnreserved b then [Char.ofNat b.toNat] else ['%', digit (b / 16), digit (b % 16)]

/-- A text with every byte encoded that is not unreserved. -/
def encode (s : String) : String :=
  String.ofList (s.toUTF8.toList.flatMap encodeByte)

end AppServer.Text.Percent
