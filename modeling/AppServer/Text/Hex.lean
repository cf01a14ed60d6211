/-!
# Bytes in hexadecimal

Two lower-case digits a byte.
-/

namespace AppServer.Text.Hex

def writeByte (b : UInt8) : List Char :=
  [Nat.digitChar (b.toNat / 16), Nat.digitChar (b.toNat % 16)]

def write (bytes : ByteArray) : String :=
  String.ofList (bytes.toList.flatMap writeByte)

/-- The value of a digit, in either case. -/
def digitValue? (c : Char) : Option UInt8 :=
  let n := UInt8.ofNat c.toNat
  if '0' ≤ c ∧ c ≤ '9' then some (n - 48)
  else if 'a' ≤ c ∧ c ≤ 'f' then some (n - 87)
  else if 'A' ≤ c ∧ c ≤ 'F' then some (n - 55)
  else none

def readDigits? : List Char → Option (List UInt8)
  | [] => some []
  | [_] => none
  | a :: b :: rest => do
    let high ← digitValue? a
    let low ← digitValue? b
    let bytes ← readDigits? rest
    some ((high * 16 + low) :: bytes)

/-- Reads an even number of digits. -/
def read? (s : String) : Option ByteArray :=
  (readDigits? s.toList).map List.toByteArray

end AppServer.Text.Hex
