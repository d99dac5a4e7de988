namespace BracketMarkup.Path

def splitLast (path : List Char) : List Char × List Char :=
  let name := (path.reverse.takeWhile (· != '/')).reverse
  (path.take (path.length - name.length), name)

def base (path : List Char) : List Char := (splitLast path).2

/-- The directory of a path. Slashes at its end go unless it is all slashes. -/
def directory (path : List Char) : List Char :=
  let front := (splitLast path).1
  if front.all (· == '/') then front else (front.reverse.dropWhile (· == '/')).reverse

/-- A component cut before its extension: its last dot and what follows, unless only dots stand before
    that dot. -/
def splitComponent (name : List Char) : List Char × List Char :=
  let leading := name.takeWhile (· == '.')
  let rest := name.dropWhile (· == '.')
  if '.' ∈ rest then
    let afterDot := (rest.reverse.takeWhile (· != '.')).reverse
    (leading ++ rest.take (rest.length - afterDot.length - 1), '.' :: afterDot)
  else (name, [])

def splitExtension (path : List Char) : List Char × List Char :=
  let (front, name) := splitLast path
  let (stem, extension) := splitComponent name
  (front ++ stem, extension)

def join (directory name : List Char) : List Char :=
  if name.head? = some '/' then name
  else if directory = [] ∨ directory.getLast? = some '/' then directory ++ name
  else directory ++ '/' :: name

def normalComponents (absolute : Bool) (components : List (List Char)) : List (List Char) :=
  (components.foldl (fun kept component =>
    if component = [] ∨ component = ['.'] then kept
    else if component ≠ ['.', '.'] then component :: kept
    else match kept with
      | [] => if absolute then [] else [component]
      | last :: earlier => if last = ['.', '.'] then component :: kept else earlier) []).reverse

/-- Exactly two slashes in front of a path are kept, more count as one. -/
def normalize (path : List Char) : List Char :=
  let slashes := (path.takeWhile (· == '/')).length
  let front := List.replicate (if slashes = 2 then 2 else min slashes 1) '/'
  let components := normalComponents (slashes != 0) (path.splitOn '/')
  let result := front ++ ['/'].intercalate components
  if result = [] then ['.'] else result

end BracketMarkup.Path
