import BinDelegation.CommandLine.World
import BinDelegation.Document.Target
import BinDelegation.Text.Lossy

/-! # Target files

Every regular file below a directory is a target, under its path from there. Symbolic links are no
targets and are not followed, unless the directory itself is given by one.
-/

namespace BinDelegation.TargetFiles

/-- The names of a file as text, if they all are. -/
def texts? (names : Location) : Option (List String) :=
  names.mapM fun name => String.fromUTF8? ⟨name.toArray⟩

/-- The names of a file as they are shown where they are no text. -/
def shown (names : Location) : String :=
  Lossy.decode (names.intersperse [Path.slash]).flatten

/-- The target path of a file and its record. -/
def target (root : String) (names : Location) : CommandTask (String × TargetRecord) := do
  match texts? names with
  | none => throw (.told ("non utf-8 path: " ++ shown names) none)
  | some [] => throw (.told ("empty target path for " ++ root) none)
  | some texts =>
    let path := Path.joinAll root texts
    let bytes ← CommandTask.operate (.ofFileError ("failed to read " ++ path)) (.read path)
    return ("/".intercalate texts, .ofBytes bytes)

/-- The targets below a directory, sorted by their paths. The files are read in the order of the
walk, which goes by names and so is another one where a name has a character that comes before a
slash. -/
def collect (root : String) : CommandTask (List (String × TargetRecord)) := do
  let found ← CommandTask.operate (fun e => .ofFileError (e.messageAt root) e) (.walk root none)
  let regular := found.filter (·.2 = .file)
  let targets ← regular.mapM fun (names, _) => target root names
  return targets.mergeSort fun a b => a.1 ≤ b.1

end BinDelegation.TargetFiles
