/-!
# Text of arbitrary bytes

Bytes read as UTF-8, where every maximal part that cannot belong to a character is replaced by
U+FFFD.
-/

namespace AppServer.Text

/-- What is read at the start of some bytes: a character or a part to be replaced. -/
inductive Chunk
  | char (c : Char) (size : Nat)
  | broken (size : Nat)

def isContinuation (b : UInt8) : Bool :=
  0x80 ≤ b && b ≤ 0xBF

/-- The bounds of the second byte after a leading byte of three or four bytes. -/
def secondBounds (lead : UInt8) : UInt8 × UInt8 :=
  if lead = 0xE0 then (0xA0, 0xBF)
  else if lead = 0xED then (0x80, 0x9F)
  else if lead = 0xF0 then (0x90, 0xBF)
  else if lead = 0xF4 then (0x80, 0x8F)
  else (0x80, 0xBF)

def low6 (b : UInt8) : Nat :=
  b.toNat - 0x80

/-- Reads one character or broken part. -/
def chunkAt (lead : UInt8) (rest : List UInt8) : Chunk :=
  if lead < 0x80 then .char (Char.ofNat lead.toNat) 1
  else if lead < 0xC2 then .broken 1
  else if lead < 0xE0 then
    match rest with
    | b :: _ =>
      if isContinuation b then .char (Char.ofNat ((lead.toNat - 0xC0) * 64 + low6 b)) 2
      else .broken 1
    | [] => .broken 1
  else if lead < 0xF5 then
    let (low, high) := secondBounds lead
    match rest with
    | b :: rest =>
      if low ≤ b && b ≤ high then
        match rest with
        | c :: rest =>
          if isContinuation c then
            if lead < 0xF0 then
              .char (Char.ofNat (((lead.toNat - 0xE0) * 64 + low6 b) * 64 + low6 c)) 3
            else
              match rest with
              | d :: _ =>
                if isContinuation d then
                  .char (Char.ofNat
                    ((((lead.toNat - 0xF0) * 64 + low6 b) * 64 + low6 c) * 64 + low6 d)) 4
                else .broken 3
              | [] => .broken 3
          else .broken 2
        | [] => .broken 2
      else .broken 1
    | [] => .broken 1
  else .broken 1

/-- Reads characters; `skip` bytes belong to the last one, and `done` is in reverse. -/
def lossyFrom (done : List Char) : Nat → List UInt8 → List Char
  | _, [] => done.reverse
  | skip + 1, _ :: rest => lossyFrom done skip rest
  | 0, b :: rest =>
    match chunkAt b rest with
    | .char c size => lossyFrom (c :: done) (size - 1) rest
    | .broken size => lossyFrom ('\uFFFD' :: done) (size - 1) rest

/-- The text of some bytes, with what is not UTF-8 replaced. -/
def lossy (bytes : ByteArray) : String :=
  String.ofList (lossyFrom [] 0 bytes.toList)

end AppServer.Text
