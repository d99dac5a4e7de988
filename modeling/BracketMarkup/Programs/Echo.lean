import BracketMarkup.Programs.Octets

namespace BracketMarkup.Programs

/-- Who carries escapes out: a shell in its own commands, or a program. -/
inductive Escaper where
  | shell
  | echo
  | printf
  deriving DecidableEq, Repr

inductive Escape where
  | written (octets rest : Octets)
  | finish (status : Nat)

def control? : Char → Option Char
  | 'a' => some '\x07'
  | 'b' => some '\x08'
  | 'e' => some '\x1b'
  | 'f' => some '\x0c'
  | 'n' => some '\n'
  | 'r' => some '\r'
  | 't' => some '\t'
  | 'v' => some '\x0b'
  | '\\' => some '\\'
  | _ => none

def readCharacterName (length : Nat) (s : Octets) : Escape :=
  match digitsIn 16 length s with
  | (some n, rest) =>
    let control := n ≤ 0x9F ∧ n ≠ 0x24 ∧ n ≠ 0x40 ∧ n ≠ 0x60
    if s.length - rest.length < length ∨ control ∨ !n.isValidChar then .finish 1
    else .written (.ofText [Char.ofNat n]) rest
  | (none, _) => .finish 1

def Escape.read (escaper : Escaper) (s : Octets) : Escape :=
  match s with
  | [] => .written ['\\'] []
  | c :: rest =>
    match digitsIn 8 3 (c :: rest), control? c with
    | (some value, after), _ => .written [octet value] after
    | _, some control => .written [control] rest
    | _, none =>
      if c = 'x' ∧ escaper ≠ .shell then
        match digitsIn 16 2 rest with
        | (some value, after) => .written [octet value] after
        | (none, _) => if escaper = .printf then .finish 1 else .written ['\\', c] rest
      else if escaper = .printf ∧ c = '"' then .written [c] rest
      else if escaper = .printf ∧ c = 'c' then .finish 0
      else if escaper = .printf ∧ c = 'u' then readCharacterName 4 rest
      else if escaper = .printf ∧ c = 'U' then readCharacterName 8 rest
      else .written ['\\', c] rest

def interpretEscapes (escaper : Escaper) : Nat → Octets → Octets × Option Nat
  | 0, _ => ([], none)
  | fuel + 1, s =>
    let keep := fun (head rest : Octets) =>
      let (tail, ending) := interpretEscapes escaper fuel rest
      (head ++ tail, ending)
    match s with
    | [] => ([], none)
    | '\\' :: 'c' :: _ => ([], some 0)
    | '\\' :: '0' :: rest =>
      let (value, rest) := digitsIn 8 3 rest
      keep [octet (value.getD 0)] rest
    | '\\' :: rest =>
      match Escape.read escaper rest with
      | .written shown rest => keep shown rest
      | .finish status => ([], some status)
    | c :: rest => keep [c] rest

def isEchoOption : Octets → Bool
  | '-' :: letters => !letters.isEmpty && letters.all (['n', 'e', 'E'].contains ·)
  | _ => false

def echo (words : List Octets) : Octets :=
  let options := (words.takeWhile isEchoOption).flatten
  let text := joinWords (words.dropWhile isEchoOption)
  let escapes := (options.filter fun c => c == 'e' || c == 'E').getLast? == some 'e'
  let (shown, ending) := if escapes then interpretEscapes .echo (text.length + 1) text else (text, none)
  shown ++ if options.contains 'n' || ending.isSome then [] else ['\n']

end BracketMarkup.Programs
