namespace BracketMarkup

abbrev Bytes := List UInt8

namespace Utf8

def encode (s : List Char) : Bytes := s.flatMap String.utf8EncodeChar

inductive Fault where
  | start
  | continuation
  | truncated
  deriving DecidableEq, Repr

/-- What a byte that starts a character says of it: how many bytes follow, the least and the greatest
    value of the first of them, and the bits of the character that it holds itself. -/
structure Lead where
  following : Nat
  low : Nat
  high : Nat
  bits : Nat

def lead? (byte : UInt8) : Option Lead :=
  let b := byte.toNat
  if b < 0x80 then some ⟨0, 0, 0, b⟩
  else if b < 0xC2 then none
  else if b < 0xE0 then some ⟨1, 0x80, 0xBF, b - 0xC0⟩
  else if b < 0xF0 then
    some ⟨2, if b = 0xE0 then 0xA0 else 0x80, if b = 0xED then 0x9F else 0xBF, b - 0xE0⟩
  else if b < 0xF5 then
    some ⟨3, if b = 0xF0 then 0x90 else 0x80, if b = 0xF4 then 0x8F else 0xBF, b - 0xF0⟩
  else none

def readFollowing (low high : Nat) (bits : Nat) : Nat → Bytes → Except (Fault × Nat) Nat
  | 0, _ => .ok bits
  | _ + 1, [] => .error (.truncated, 0)
  | count + 1, byte :: rest =>
    if low ≤ byte.toNat ∧ byte.toNat ≤ high then
      match readFollowing 0x80 0xBF (bits * 0x40 + byte.toNat % 0x40) count rest with
      | .ok bits => .ok bits
      | .error (fault, good) => .error (fault, good + 1)
    else .error (.continuation, 0)

def readChar (byte : UInt8) (rest : Bytes) : Except Fault Char × Nat :=
  match lead? byte with
  | none => (.error .start, 1)
  | some lead =>
    match readFollowing lead.low lead.high lead.bits lead.following rest with
    | .ok bits => (.ok (Char.ofNat bits), lead.following + 1)
    | .error (fault, good) => (.error fault, good + 1)

def readAll (skip : Nat) : Bytes → List (Except Fault Char × Nat)
  | [] => []
  | byte :: rest =>
    match skip with
    | skip + 1 => readAll skip rest
    | 0 =>
      let (char, size) := readChar byte rest
      (char, size) :: readAll (size - 1) rest

structure Bad where
  fault : Fault
  position : Nat
  size : Nat
  byte : UInt8
  deriving DecidableEq, Repr

def Fault.reason : Fault → String
  | start => "invalid start byte"
  | continuation => "invalid continuation byte"
  | truncated => "unexpected end of data"

def hexDigit (n : Nat) : Char := (Nat.toDigits 16 n).getLastD '0'

def hexByte (b : UInt8) : String := String.ofList [hexDigit (b.toNat / 16), hexDigit (b.toNat % 16)]

def Bad.message (bad : Bad) : String :=
  let reason := bad.fault.reason
  let first := bad.position
  let last := bad.position + bad.size - 1
  let byte := hexByte bad.byte
  if bad.size = 1 then
    s!"'utf-8' codec can't decode byte 0x{byte} in position {first}: {reason}"
  else s!"'utf-8' codec can't decode bytes in position {first}-{last}: {reason}"

def collect (bytes : Bytes) (position : Nat) :
    List (Except Fault Char × Nat) → Except Bad (List Char)
  | [] => .ok []
  | (.ok c, size) :: rest => (collect bytes (position + size) rest).map (c :: ·)
  | (.error fault, size) :: _ => .error ⟨fault, position, size, bytes.getD position 0⟩

def decode (bytes : Bytes) : Except Bad (List Char) := collect bytes 0 (readAll 0 bytes)

def decodeLossy (bytes : Bytes) : List Char :=
  (readAll 0 bytes).map fun (char, _) => match char with
    | .ok c => c
    | .error _ => '\uFFFD'

end Utf8

def unifyLineEnds : List Char → List Char
  | [] => []
  | '\r' :: '\n' :: rest => '\n' :: unifyLineEnds rest
  | c :: rest => (if c = '\r' then '\n' else c) :: unifyLineEnds rest

end BracketMarkup
