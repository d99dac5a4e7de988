import BracketMarkup.Text.Quoted
import BracketMarkup.Text.Utf8

namespace BracketMarkup.Host

inductive Fault where
  | missing
  | badFormat
  | denied
  | occupied
  | notDirectory
  | isDirectory
  | noSpace
  | nameTooLong
  | tooManyLinks
  | badDescriptor
  deriving DecidableEq, Repr

def Fault.number : Fault → Nat
  | missing => 2
  | badFormat => 8
  | badDescriptor => 9
  | denied => 13
  | occupied => 17
  | notDirectory => 20
  | isDirectory => 21
  | noSpace => 28
  | nameTooLong => 36
  | tooManyLinks => 40

def Fault.text : Fault → String
  | missing => "No such file or directory"
  | badFormat => "Exec format error"
  | badDescriptor => "Bad file descriptor"
  | denied => "Permission denied"
  | occupied => "File exists"
  | notDirectory => "Not a directory"
  | isDirectory => "Is a directory"
  | noSpace => "No space left on device"
  | nameTooLong => "File name too long"
  | tooManyLinks => "Too many levels of symbolic links"

inductive Refusal where
  | nul
  | fault (cause : Fault) (path : List Char)
  deriving DecidableEq, Repr

def Refusal.message : Refusal → String
  | nul => "embedded null byte"
  | .fault cause path =>
    let number := cause.number
    let text := cause.text
    let shown := String.ofList (Quoted.encode path)
    s!"[Errno {number}] {text}: {shown}"

inductive ReadFailure where
  | refused (refusal : Refusal)
  | undecodable (bad : Utf8.Bad)
  deriving DecidableEq, Repr

def ReadFailure.message : ReadFailure → String
  | refused refusal => refusal.message
  | undecodable bad => bad.message

end BracketMarkup.Host
