import BracketMarkup.Programs.Echo
import BracketMarkup.Programs.Numbers

namespace BracketMarkup.Programs.Printf

/-- A conversion of a format: its flags, how wide its text is at least, and how its parts are cut. -/
structure Conversion where
  flags : List Char
  width : Nat
  precision : Option Nat
  letter : Char

namespace Conversion

def has (conversion : Conversion) (flag : Char) : Bool := conversion.flags.contains flag

def pad (conversion : Conversion) (zeros : Bool) (sign body : Octets) : Octets :=
  let missing := conversion.width - (sign.length + body.length)
  if conversion.has '-' then sign ++ body ++ List.replicate missing ' '
  else if zeros then sign ++ List.replicate missing '0' ++ body
  else List.replicate missing ' ' ++ sign ++ body

def signOf (conversion : Conversion) (negative : Bool) : Octets :=
  if negative then ['-'] else if conversion.has '+' then ['+']
  else if conversion.has ' ' then [' '] else []

def upper (conversion : Conversion) (text : Octets) : Octets :=
  if conversion.letter.isUpper then text.map Char.toUpper else text

def isSigned (conversion : Conversion) : Bool := conversion.letter = 'd' || conversion.letter = 'i'

def clamp (conversion : Conversion) (n : Int) : Int :=
  if conversion.isSigned then max (-9223372036854775808) (min n 9223372036854775807)
  else if n < -18446744073709551615 then -1 else min n 18446744073709551615

def writeInteger (conversion : Conversion) (n : Int) : Octets :=
  let n := conversion.clamp n
  let base := match conversion.letter with
    | 'o' => 8
    | 'x' | 'X' => 16
    | _ => 10
  let magnitude := if conversion.isSigned then n.natAbs else (n % 18446744073709551616).toNat
  let digits := if conversion.precision = some 0 ∧ magnitude = 0 then [] else Nat.toDigits base magnitude
  let digits := padZeros (conversion.precision.getD 1) digits
  let digits := if conversion.has '#' ∧ base = 8 ∧ digits.head? ≠ some '0' then '0' :: digits else digits
  let sign : Octets := if conversion.isSigned then conversion.signOf (n < 0)
    else if conversion.has '#' ∧ magnitude ≠ 0 ∧ base = 16 then ['0', 'x'] else []
  conversion.pad (conversion.has '0' && conversion.precision.isNone)
    (conversion.upper sign) (conversion.upper digits)

def writeFraction (conversion : Conversion) (negative : Bool) (quotient : Fraction) : Octets :=
  let places := conversion.precision.getD 6
  let body := match conversion.letter.toLower with
    | 'e' => writeScientific places (conversion.has '#') quotient
    | 'g' => writeGeneral places (conversion.has '#') quotient
    | _ => writeFixed places (conversion.has '#') quotient
  conversion.pad (conversion.has '0') (conversion.signOf negative) (conversion.upper body)

def isWhole (letter : Char) : Bool := "diouxX".toList.contains letter

def write (conversion : Conversion) (word : Octets) : Octets × Bool :=
  if conversion.letter = 's' then
    (conversion.pad false [] (word.take (conversion.precision.getD word.length)), true)
  else if conversion.letter = 'c' then (conversion.pad false [] [word.headD '\x00'], true)
  else
    match word with
    | '\'' :: c :: rest | '"' :: c :: rest =>
      let n := ((Octets.toText (c :: rest)).headD c).toNat
      (if isWhole conversion.letter then conversion.writeInteger n
        else conversion.writeFraction false (n, 1), true)
    | _ =>
      if isWhole conversion.letter then
        let (n, fits) := readInteger word
        (conversion.writeInteger n, fits && conversion.clamp n = n)
      else
        let (negative, quotient, fits) := readFraction word
        (conversion.writeFraction negative quotient, fits)

end Conversion

structure Printing where
  written : List Octets
  words : List Octets
  status : Nat

abbrev Step := Except Printing

namespace Printing

def put (printing : Printing) (octets : Octets) : Printing :=
  { printing with written := octets :: printing.written }

def next (printing : Printing) : Option Octets × Printing :=
  (printing.words.head?, { printing with words := printing.words.drop 1 })

def fail {α : Type} (printing : Printing) : Step α := .error { printing with status := 1 }

end Printing

def readMeasure (printing : Printing) (format : Octets) : Int × Octets × Printing :=
  match format with
  | '*' :: rest =>
    let (word, printing) := printing.next
    ((readInteger (word.getD [])).1, rest, printing)
  | _ =>
    let (n, rest) := digitsIn 10 format.length format
    ((n.getD 0 : Nat), rest, printing)

def refusedLetters (flags : List Char) (hasPrecision : Bool) : List Char :=
  let byFlags := flags.flatMap fun flag => match flag with
    | '\'' | 'I' => "eosxEX".toList ++ ['c']
    | '#' => "cdisu".toList
    | '0' => "cs".toList
    | _ => []
  if hasPrecision then 'c' :: byFlags else byFlags

def readConversion (printing : Printing) (format : Octets) : Step (Printing × Octets) :=
  let flags := format.takeWhile ("-+ #0'I".toList.contains ·)
  let (width, rest, printing) := readMeasure printing (format.drop flags.length)
  let (precision, rest, printing) := match rest with
    | '.' :: rest =>
      let (n, rest, printing) := readMeasure printing rest
      (some n, rest, printing)
    | _ => (none, rest, printing)
  match rest.dropWhile ("lLhjtz".toList.contains ·) with
  | [] => printing.fail
  | letter :: rest =>
    if !"cdeEfFgGiosuxX".toList.contains letter ∨ (refusedLetters flags precision.isSome).contains letter then
      printing.fail
    else
      let flags := if width < 0 then '-' :: flags else flags
      let precision := precision.bind fun n => if n < 0 then none else some n.toNat
      let (word, printing) := printing.next
      let (text, fits) := Conversion.write ⟨flags, width.natAbs, precision, letter⟩ (word.getD [])
      let printing := printing.put text
      .ok (if fits then printing else { printing with status := 1 }, rest)

def formatOnce : Nat → Octets → Printing → Step Printing
  | 0, _, printing => .ok printing
  | fuel + 1, format, printing =>
    match format with
    | [] => .ok printing
    | '\\' :: rest =>
      match Escape.read .printf rest with
      | .written octets rest => formatOnce fuel rest (printing.put octets)
      | .finish status => .error { printing with status }
    | '%' :: '%' :: rest => formatOnce fuel rest (printing.put ['%'])
    | '%' :: 'b' :: rest =>
      let (word, printing) := printing.next
      let (shown, ending) := interpretEscapes .printf ((word.getD []).length + 1) (word.getD [])
      match ending with
      | none => formatOnce fuel rest (printing.put shown)
      | some status => .error { printing.put shown with status }
    | '%' :: rest => do
      let (printing, rest) ← readConversion printing rest
      formatOnce fuel rest printing
    | c :: rest => formatOnce fuel rest (printing.put [c])

def formatAll (format : Octets) : Nat → Printing → Step Printing
  | 0, printing => .ok printing
  | fuel + 1, printing => do
    let after ← formatOnce (format.length + 1) format printing
    if after.words = [] ∨ after.words.length = printing.words.length then return after
    formatAll format fuel after

end Printf

def printf (words : List Octets) : Octets × Nat :=
  match if words.head? = some ['-', '-'] then words.drop 1 else words with
  | [] => ([], 1)
  | format :: words =>
    match Printf.formatAll format (words.length + 1) ⟨[], words, 0⟩ with
    | .ok printing | .error printing => (printing.written.reverse.flatten, printing.status)

end BracketMarkup.Programs
