import BracketMarkup.Programs.Shell.Evaluate

namespace BracketMarkup.Programs

open Host

def launchDepth : Nat := 100000

/-- Starts a program in a directory with no input. A missing directory is refused before the program is
    looked for. -/
def start : Starter := fun tree directory words =>
  let name := words.headD []
  let refuse := fun (refusal : Refusal) => (.error refusal.message, tree)
  if directory.contains '\x00' || words.any (·.contains '\x00') then refuse .nul
  else match tree.find (.inside []) directory with
    | .error cause => refuse (.fault cause directory)
    | .ok (_, .file _ _) => refuse (.fault .notDirectory directory)
    | .ok (place, .directory) =>
      let octets := words.map Octets.ofText
      match Shell.launch launchDepth (.fresh tree place) (octets.headD []) octets with
      | .error cause => refuse (.fault cause name)
      | .ok (status, process) => (.ok (((process.pending? 1).getD []).toBytes, status), process.tree)

end BracketMarkup.Programs
