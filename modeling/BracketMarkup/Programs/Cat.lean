import BracketMarkup.Programs.Octets

namespace BracketMarkup.Programs.Cat

def longOptions : List (String × Char) :=
  [("number-nonblank", 'b'), ("number", 'n'), ("squeeze-blank", 's'), ("show-nonprinting", 'v'),
    ("show-ends", 'E'), ("show-tabs", 'T'), ("show-all", 'A')]

def longOption? (name : Octets) : Option Char :=
  let found := longOptions.filter fun (long, _) => name.isPrefixOf long.toList
  match found.filter fun (long, _) => long.toList = name, found with
  | [(_, letter)], _ | [], [(_, letter)] => some letter
  | _, _ => none

def readOptions? : List Octets → Option (List Char × List Octets)
  | [] => some ([], [])
  | word :: words =>
    match word with
    | ['-', '-'] => some ([], words)
    | '-' :: '-' :: name => do
      let letter ← longOption? name
      let (letters, files) ← readOptions? words
      return (letter :: letters, files)
    | '-' :: c :: more => do
      let (letters, files) ← readOptions? words
      if (c :: more).all ("AbeEnstTuv".toList.contains ·) then return (c :: more ++ letters, files) else none
    | _ => do
      let (letters, files) ← readOptions? words
      return (letters, word :: files)

structure Style where
  number : Bool
  numberFilled : Bool
  squeeze : Bool
  control : Bool
  ends : Bool
  tabs : Bool

def Style.of (letters : List Char) : Style :=
  let has := fun (meant : String) => letters.any (meant.toList.contains ·)
  ⟨has "nb", has "b", has "s", has "vAet", has "EAe", has "TAt"⟩

/-- Where showing stands: how many lines have numbers, the line feeds in a row behind the first, none
    within a line, and whether a carriage return waits for what follows it. -/
structure Progress where
  lines : Nat
  breaks : Option Nat
  returned : Bool

def showControl (c : Char) : Octets :=
  let low := fun n => if n < 0x20 then ['^', Char.ofNat (n + 0x40)]
    else if n < 0x7F then [Char.ofNat n] else ['^', '?']
  if c.toNat < 0x80 then low c.toNat else 'M' :: '-' :: low (c.toNat - 0x80)

def lineNumber (n : Nat) : Octets :=
  List.replicate (6 - (decimal n).length) ' ' ++ decimal n ++ ['\t']

def showOctet (style : Style) (progress : Progress) (c : Char) : Octets × Progress :=
  let waiting := if progress.returned then ['\r'] else []
  let numberIf := fun (numbered : Bool) =>
    if numbered then (progress.lines + 1, lineNumber (progress.lines + 1)) else (progress.lines, [])
  if c = '\n' then
    let breaks := match progress.breaks with
      | none => 0
      | some before => min (before + 1) 2
    if breaks = 2 ∧ style.squeeze then ([], { progress with breaks := some 2 })
    else
      let (lines, number) := numberIf (style.number && !style.numberFilled && breaks != 0)
      let waiting := if style.ends ∧ progress.returned then ['^', 'M'] else waiting
      (number ++ waiting ++ (if style.ends then ['$'] else []) ++ ['\n'], ⟨lines, some breaks, false⟩)
  else
    let (lines, number) := numberIf (style.number && progress.breaks.isSome)
    let (shown, returned) : Octets × Bool :=
      if c = '\t' then (if style.tabs then ['^', 'I'] else ['\t'], false)
      else if style.control then (showControl c, false)
      else if c = '\r' ∧ style.ends then ([], true)
      else ([c], false)
    (waiting ++ number ++ shown, ⟨lines, none, returned⟩)

def showOctets (style : Style) (progress : Progress) (octets : Octets) : Octets × Progress :=
  let (shown, progress) := octets.foldl (fun (shown, progress) c =>
    let (more, progress) := showOctet style progress c
    (more.reverse ++ shown, progress)) ([], progress)
  (shown.reverse, progress)

end Cat

def cat (read : Octets → Option Octets) (words : List Octets) : Octets × Nat :=
  match Cat.readOptions? words with
  | none => ([], 1)
  | some (letters, files) =>
    let (shown, progress, status) := (if files = [] then [['-']] else files).foldl
      (fun (shown, progress, status) file => match read file with
        | none => (shown, progress, 1)
        | some octets =>
          let (more, progress) := Cat.showOctets (.of letters) progress octets
          (more :: shown, progress, status)) (([] : List Octets), (⟨0, some 0, false⟩ : Cat.Progress), 0)
    (shown.reverse.flatten ++ if progress.returned then ['\r'] else [], status)

end BracketMarkup.Programs
