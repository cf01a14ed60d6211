/-!
# The text of a JSON string

Turns the bytes between two quotes into text. Escapes are resolved, a pair of surrogate escapes is
one character, a surrogate on its own is refused, and the result must be UTF-8.
-/

namespace AppServer.Json

/-- The value of a hexadecimal digit. -/
def hexValue (b : UInt8) : Nat :=
  if b ≤ 0x39 then b.toNat - 0x30 else if b ≤ 0x46 then b.toNat - 0x37 else b.toNat - 0x57

/-- The value of four hexadecimal digits. -/
def hexQuad (a b c d : UInt8) : Nat :=
  ((hexValue a * 16 + hexValue b) * 16 + hexValue c) * 16 + hexValue d

def isHighSurrogate (n : Nat) : Bool :=
  0xD800 ≤ n && n ≤ 0xDBFF

def isLowSurrogate (n : Nat) : Bool :=
  0xDC00 ≤ n && n ≤ 0xDFFF

/-- The character of a surrogate pair. -/
def joinSurrogates (high low : Nat) : Char :=
  Char.ofNat ((high - 0xD800) * 0x400 + (low - 0xDC00) + 0x10000)

/-- The byte that a one-letter escape stands for. -/
def escapeByte (b : UInt8) : UInt8 :=
  if b = 0x62 then 0x08
  else if b = 0x66 then 0x0C
  else if b = 0x6E then 0x0A
  else if b = 0x72 then 0x0D
  else if b = 0x74 then 0x09
  else b

/-- Resolves escapes; `done` holds the bytes so far, in reverse. -/
def unescapeFrom (done : List UInt8) : List UInt8 → Option (List UInt8)
  | [] => some done.reverse
  | b :: rest =>
    if b = 0x5C then
      match rest with
      | [] => none
      | e :: rest =>
        if e = 0x75 then
          match rest with
          | h1 :: h2 :: h3 :: h4 :: rest =>
            let n := hexQuad h1 h2 h3 h4
            if isLowSurrogate n then none
            else if isHighSurrogate n then
              match rest with
              | 0x5C :: 0x75 :: l1 :: l2 :: l3 :: l4 :: rest =>
                let low := hexQuad l1 l2 l3 l4
                if isLowSurrogate low then
                  unescapeFrom ((String.utf8EncodeChar (joinSurrogates n low)).reverse ++ done) rest
                else none
              | _ => none
            else unescapeFrom ((String.utf8EncodeChar (Char.ofNat n)).reverse ++ done) rest
          | _ => none
        else unescapeFrom (escapeByte e :: done) rest
    else unescapeFrom (b :: done) rest

/-- The text between two quotes. -/
def textOf? (raw : List UInt8) : Option String := do
  String.fromUTF8? (← unescapeFrom [] raw).toByteArray

end AppServer.Json
