/-! # Errors of file operations -/

namespace BinDelegation

/-- Why a file operation fails. -/
inductive FileError where
  | notFound
  | alreadyExists
  | notADirectory
  | isADirectory
  | invalidArgument
  | nameTooLong
  | tooManyLinks
  /-- The path holds a zero byte, so it cannot be handed to the system. -/
  | zeroByte
  /-- Any other reason that the system gives, by its number and wording. -/
  | other (code : Nat) (reason : String)
deriving DecidableEq, Repr

namespace FileError

/-- The system's number for the error, if it is the system that refuses. -/
def code? : FileError → Option Nat
  | notFound => some 2
  | alreadyExists => some 17
  | notADirectory => some 20
  | isADirectory => some 21
  | invalidArgument => some 22
  | nameTooLong => some 36
  | tooManyLinks => some 40
  | zeroByte => none
  | other code _ => some code

/-- The wording of the error. -/
def reason : FileError → String
  | notFound => "No such file or directory"
  | alreadyExists => "File exists"
  | notADirectory => "Not a directory"
  | isADirectory => "Is a directory"
  | invalidArgument => "Invalid argument"
  | nameTooLong => "File name too long"
  | tooManyLinks => "Too many levels of symbolic links"
  | zeroByte => "file name contained an unexpected NUL byte"
  | other _ reason => reason

/-- The error of a number, with the system's wording where the number is none of the above. -/
def ofCode (code : Nat) (reason : String) : FileError :=
  match code with
  | 2 => notFound
  | 17 => alreadyExists
  | 20 => notADirectory
  | 21 => isADirectory
  | 22 => invalidArgument
  | 36 => nameTooLong
  | 40 => tooManyLinks
  | _ => other code reason

/-- The text shown to a person. -/
def message (e : FileError) : String :=
  match e.code? with
  | some code => e.reason ++ " (os error " ++ toString code ++ ")"
  | none => e.reason

/-- The text shown when a walk through the files at a path fails. -/
def messageAt (e : FileError) (path : String) : String :=
  "IO error for operation on " ++ path ++ ": " ++ e.message

end FileError

end BinDelegation
