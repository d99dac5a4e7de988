import BracketMarkup.Programs.Octets

namespace BracketMarkup.Programs

def splitSign (s : Octets) : Bool × Octets :=
  match s.dropWhile fun c => c == ' ' || ('\t' ≤ c && c ≤ '\r') with
  | '-' :: rest => (true, rest)
  | '+' :: rest => (false, rest)
  | text => (false, text)

def withSign (negative : Bool) (n : Nat) : Int := if negative then -(n : Int) else n

def readInteger (word : Octets) : Int × Bool :=
  let (negative, unsigned) := splitSign word
  let (value, rest) := match unsigned with
    | '0' :: x :: digits =>
      match if x.toLower = 'x' then digitsIn 16 digits.length digits else (none, digits) with
      | (some n, rest) => (some n, rest)
      | (none, _) => digitsIn 8 unsigned.length unsigned
    | _ => digitsIn 10 unsigned.length unsigned
  match value with
  | none => (0, word = [])
  | some n => (withSign negative n, rest = [])

abbrev Fraction := Nat × Nat

def scale (base : Nat) (exponent : Int) (quotient : Fraction) : Fraction :=
  if 0 ≤ exponent then (quotient.1 * Nat.pow base exponent.toNat, quotient.2)
  else (quotient.1, quotient.2 * Nat.pow base exponent.natAbs)

def roundFraction (quotient : Fraction) : Nat :=
  let whole := quotient.1 / quotient.2
  let twice := 2 * (quotient.1 % quotient.2)
  if twice < quotient.2 ∨ (twice = quotient.2 ∧ whole % 2 = 0) then whole else whole + 1

/-- The nearest fraction whose numerator has 64 bits, times a power of two. -/
def roundBits (quotient : Fraction) : Fraction :=
  let guess : Int := (Nat.log2 quotient.1 : Int) - Nat.log2 quotient.2 - 63
  let exponent := if roundFraction (scale 2 (-guess) quotient) < 1 <<< 63 then guess - 1 else guess
  if quotient.1 = 0 then quotient else scale 2 exponent (roundFraction (scale 2 (-exponent) quotient), 1)

def readFraction (word : Octets) : Bool × Fraction × Bool :=
  let (negative, unsigned) := splitSign word
  let whole := unsigned.takeWhile Char.isDigit
  let (places, rest) := match unsigned.dropWhile Char.isDigit with
    | '.' :: more => (more.takeWhile Char.isDigit, more.dropWhile Char.isDigit)
    | rest => ([], rest)
  let (exponent, rest) : Int × Octets := match rest with
    | letter :: more =>
      let (negative, digits) := splitSign more
      match if letter.toLower = 'e' then digitsIn 10 4 digits else (none, rest) with
      | (some n, rest) => (withSign negative n, rest)
      | (none, _) => (0, rest)
    | [] => (0, [])
  let digits := whole ++ places
  let value := (digitsIn 10 digits.length digits).1
  let quotient := scale 10 (exponent - places.length) (value.getD 0, 1)
  (negative, roundBits quotient, if digits = [] then word = [] else rest = [])

def padZeros (length : Nat) (digits : Octets) : Octets :=
  List.replicate (length - digits.length) '0' ++ digits

def insertPoint (places : Nat) (always : Bool) (n : Nat) : Octets :=
  let digits := padZeros (places + 1) (decimal n)
  let whole := digits.take (digits.length - places)
  if places = 0 ∧ !always then whole else whole ++ '.' :: digits.drop (digits.length - places)

def writeFixed (places : Nat) (always : Bool) (quotient : Fraction) : Octets :=
  insertPoint places always (roundFraction (scale 10 places quotient))

def scientific (places : Nat) (quotient : Fraction) : Nat × Int :=
  let guess : Int := ((decimal quotient.1).length : Int) - (decimal quotient.2).length
  let (n, d) := scale 10 (-guess) quotient
  let exponent := if d ≤ n then guess else guess - 1
  let rounded := roundFraction (scale 10 (places - exponent) quotient)
  if quotient.1 = 0 then (0, 0)
  else if rounded = Nat.pow 10 (places + 1) then (rounded / 10, exponent + 1) else (rounded, exponent)

def writeExponent (exponent : Int) : Octets :=
  'e' :: (if exponent < 0 then '-' else '+') :: padZeros 2 (decimal exponent.natAbs)

def writeScientific (places : Nat) (always : Bool) (quotient : Fraction) : Octets :=
  let (n, exponent) := scientific places quotient
  insertPoint places always n ++ writeExponent exponent

def dropTrailingZeros (digits : Octets) : Octets :=
  if digits.contains '.' then ((digits.reverse.dropWhile (· == '0')).dropWhile (· == '.')).reverse
  else digits

def writeGeneral (precision : Nat) (always : Bool) (quotient : Fraction) : Octets :=
  let precision := max precision 1
  let (n, exponent) := scientific (precision - 1) quotient
  let trim := fun (digits : Octets) => if always then digits else dropTrailingZeros digits
  if -4 ≤ exponent ∧ exponent < precision then
    trim (writeFixed ((precision : Int) - 1 - exponent).toNat always quotient)
  else trim (insertPoint (precision - 1) always n) ++ writeExponent exponent

end BracketMarkup.Programs
