import BinDelegation.CommandLine.KeyFiles
import BinDelegation.CommandLine.Report

/-! # Making keys -/

namespace BinDelegation

/-- The ids of two new keys as a report. -/
def KeyFiles.report (directory parentId binId : String) : Report where
  json :=
    .object [("out_dir", .string directory), ("parent_key_id", .string parentId),
      ("bin_key_id", .string binId)]
  lines := [KeyFiles.parentName ++ "  " ++ parentId, KeyFiles.binName ++ "  " ++ binId]

/-- Makes two keys and writes them to a directory, the parent's first. -/
def Command.makeKeys (asJson : Bool) (directory : String) (force : Bool) : CommandTask Outcome := do
  let parent ← CommandTask.newKeyPair
  let bin ← CommandTask.newKeyPair
  KeyFiles.write (Path.join directory KeyFiles.parentName) parent force
  KeyFiles.write (Path.join directory KeyFiles.binName) bin force
  let parentId ← CommandTask.ofExcept .ofError parent.keyId
  let binId ← CommandTask.ofExcept .ofError bin.keyId
  return (KeyFiles.report directory parentId binId).outcome asJson

end BinDelegation
