import AppServer.Text.Hidden

/-!
# Quoted text

The diagnostic form of a string: in double quotes, with a backslash before a double quote or a
backslash, short escapes for NUL, tab, line feed and carriage return, and the code point of every
other character that would not be seen.
-/

namespace AppServer.Text

/-- The digits of `n` in lower-case hexadecimal. -/
def hexDigits (n : Nat) : String :=
  String.ofList (Nat.toDigits 16 n)

/-- One character inside a quoted text. -/
def quoteChar (c : Char) : String :=
  if c = '"' then "\\\""
  else if c = '\\' then "\\\\"
  else if c = '\n' then "\\n"
  else if c = '\r' then "\\r"
  else if c = '\t' then "\\t"
  else if c = '\x00' then "\\0"
  else if isHidden c then "\\u\x7b" ++ hexDigits c.toNat ++ "\x7d"
  else String.singleton c

/-- A text between double quotes, escaped. -/
def quoted (s : String) : String :=
  "\"" ++ String.join (s.toList.map quoteChar) ++ "\""

end AppServer.Text
