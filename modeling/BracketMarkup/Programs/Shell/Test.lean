import BracketMarkup.Programs.Numbers
import BracketMarkup.Programs.Shell.State

namespace BracketMarkup.Programs.Shell

open Host

def comparison? (operator : Octets) : Option (Octets → Octets → Option Bool) :=
  let texts := fun (compare : Octets → Octets → Bool) => some fun (a b : Octets) => some (compare a b)
  let numbers := fun (compare : Int → Int → Bool) => some fun (a b : Octets) =>
    if (readInteger a).2 ∧ (readInteger b).2 then some (compare (readInteger a).1 (readInteger b).1) else none
  match String.ofList operator with
  | "=" => texts fun a b => a = b
  | "!=" => texts fun a b => a ≠ b
  | "<" => texts fun a b => a < b
  | ">" => texts fun a b => b < a
  | "-eq" => numbers fun a b => a = b
  | "-ne" => numbers fun a b => a ≠ b
  | "-lt" => numbers fun a b => a < b
  | "-le" => numbers fun a b => a ≤ b
  | "-gt" => numbers fun a b => b < a
  | "-ge" => numbers fun a b => b ≤ a
  | _ => none

def testWord? (process : Process) (operator : Octets) (word : Octets) : Option Bool :=
  let entry := (process.find word).toOption.map Prod.snd
  match String.ofList operator with
  | "-n" => some (word ≠ [])
  | "-z" => some (word = [])
  | "-e" | "-r" | "-w" => some entry.isSome
  | "-d" => some (entry = some .directory)
  | "-f" => some (entry.any fun | .file .. => true | .directory => false)
  | "-s" => some (entry.any fun | .file content _ => content ≠ [] | .directory => true)
  | "-x" => some (entry.any fun | .file _ executable => executable | .directory => true)
  | "-h" | "-L" | "-p" | "-t" => some false
  | _ => none

mutual

def testEither (process : Process) (fuel : Nat) (words : List Octets) : Bool × List Octets :=
  match fuel with
  | 0 => (false, [])
  | fuel + 1 =>
    match testBoth process fuel words with
    | (first, ['-', 'o'] :: rest) =>
      let (second, rest) := testEither process fuel rest
      (first || second, rest)
    | tested => tested

def testBoth (process : Process) (fuel : Nat) (words : List Octets) : Bool × List Octets :=
  match fuel with
  | 0 => (false, [])
  | fuel + 1 =>
    match testOne process fuel words with
    | (first, ['-', 'a'] :: rest) =>
      let (second, rest) := testBoth process fuel rest
      (first && second, rest)
    | tested => tested

def testOne (process : Process) (fuel : Nat) (words : List Octets) : Bool × List Octets :=
  match fuel with
  | 0 => (false, [])
  | fuel + 1 =>
    match words with
    | [] => (false, [])
    | [word] => (word ≠ [], [])
    | first :: second :: rest =>
      match comparison? second, rest, testWord? process first second with
      | some compare, third :: rest, _ =>
        match compare first third with
        | some holds => (holds, rest)
        | none => (false, [first])
      | _, _, some holds => (holds, rest)
      | _, _, none =>
        if first = ['!'] then
          let (holds, rest) := testOne process fuel (second :: rest)
          (!holds, rest)
        else if first = ['('] then
          let (holds, rest) := testEither process fuel (second :: rest)
          (holds, rest.drop 1)
        else (first ≠ [], second :: rest)

end

def test (process : Process) (words : List Octets) : Int :=
  match testEither process (2 * words.length + 3) words with
  | (true, []) => 0
  | (false, []) => 1
  | _ => 2

end BracketMarkup.Programs.Shell
