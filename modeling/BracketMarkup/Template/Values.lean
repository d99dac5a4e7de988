import BracketMarkup.Diagnostic
import BracketMarkup.Path

namespace BracketMarkup.Template

/-- The path of the arguments `extension:path` with its extension replaced. An empty extension takes
    it away. -/
def replaceExtension (arguments : List Char) : Except Failure (List Char) :=
  let extension := arguments.takeWhile (· != ':')
  match arguments.dropWhile (· != ':') with
  | [] => .error .noExtension
  | [_] => .error .emptyPath
  | _ :: path =>
    let stem := (Path.splitExtension path).1
    .ok (if extension = [] then stem else stem ++ '.' :: extension)

end BracketMarkup.Template
