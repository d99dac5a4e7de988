import BracketMarkup.Text.Utf8

namespace BracketMarkup.Programs

/-- Text as programs see it: each character is one byte. -/
abbrev Octets := List Char

namespace Octets

def ofBytes (bytes : Bytes) : Octets := bytes.map fun byte => Char.ofNat byte.toNat

def toBytes (octets : Octets) : Bytes := octets.map fun c => UInt8.ofNat c.toNat

def ofText (text : List Char) : Octets := ofBytes (Utf8.encode text)

def toText (octets : Octets) : List Char := Utf8.decodeLossy (toBytes octets)

end Octets

def octet (n : Nat) : Char := Char.ofNat (n % 0x100)

def digitValue? (base : Nat) (c : Char) : Option Nat :=
  let n := c.toNat
  let value := if 0x30 ≤ n ∧ n ≤ 0x39 then n - 0x30
    else if 0x61 ≤ n ∧ n ≤ 0x66 then n - 0x57
    else if 0x41 ≤ n ∧ n ≤ 0x46 then n - 0x37 else 99
  if value < base then some value else none

def digitsIn (base most : Nat) (s : Octets) : Option Nat × Octets :=
  let digits := (s.take most).takeWhile fun c => (digitValue? base c).isSome
  let value := digits.foldl (fun n c => n * base + (digitValue? base c).getD 0) 0
  (if digits = [] then none else some value, s.drop digits.length)

def decimal (n : Nat) : Octets := Nat.toDigits 10 n

def joinWords (words : List Octets) : Octets := [' '].intercalate words

end BracketMarkup.Programs
