import BinDelegation.CommandLine.World

/-! # Key files

A key is kept as the hexadecimal text of its seed on a line of its own. A directory of keys holds
the key of the parent and the key that all bins share.
-/

namespace BinDelegation.KeyFiles

/-- The file of the parent's key. -/
def parentName : String := "bins.key"

/-- The file of the bins' key. -/
def binName : String := "bin-n.key"

/-- The text of a key file. -/
def text (key : KeyPair) : String := key.seedHex ++ "\n"

/-- Writes a key file, in a directory that is made if need be. Only with `force` may something stand
there. -/
def write (path : String) (key : KeyPair) (force : Bool) : CommandTask Unit := do
  if (← CommandTask.onFiles (pathExists path)) && !force then
    throw (.told (path ++ " already exists (use --force to overwrite)") none)
  match Path.parent? path with
  | some directory =>
    CommandTask.onFilesOr (fun e => .told e.message none) (makeDirectories directory)
  | none => pure ()
  let refusal := Refusal.ofFileError ("failed to write " ++ path)
  CommandTask.operate refusal (.create path)
  CommandTask.operate refusal (.write path (text key).toUTF8)

/-- Reads a key file. -/
def read (path : String) : CommandTask KeyPair := do
  let told := "failed to read key " ++ path
  let bytes ← CommandTask.operate (.ofFileError told) (.read path)
  match String.fromUTF8? bytes with
  | none => throw (.told told (some "stream did not contain valid UTF-8"))
  | some text =>
    CommandTask.ofExcept (fun e => .told ("invalid key file " ++ path) (some e.message))
      (KeyPair.ofSeedHex text)

/-- Reads the two keys of a directory, the parent's first. -/
def readPair (directory : String) : CommandTask (KeyPair × KeyPair) := do
  let parent ← read (Path.join directory parentName)
  let bin ← read (Path.join directory binName)
  return (parent, bin)

end BinDelegation.KeyFiles
