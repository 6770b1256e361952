/-!
# File systems

What the command line needs of files: reading and writing a whole file by its path.
-/

namespace MixedRadix

/-- Why a file cannot be read or written. -/
structure FileError where
  reason : String
  /-- The number of the error, if the system gives it one. -/
  code : Option Nat := none
  deriving DecidableEq, Repr

namespace FileError

/-- A file or a directory on the way to it does not exist. -/
def notFound : FileError := ⟨"No such file or directory", some 2⟩

/-- The file may not be used in this way. -/
def permissionDenied : FileError := ⟨"Permission denied", some 13⟩

/-- Something on the way to the file is no directory. -/
def notDirectory : FileError := ⟨"Not a directory", some 20⟩

/-- The file is a directory. -/
def isDirectory : FileError := ⟨"Is a directory", some 21⟩

/-- The path or one of its components has too many bytes. -/
def nameTooLong : FileError := ⟨"File name too long", some 36⟩

/-- The path holds a character with code zero. -/
def nulInPath : FileError := { reason := "file name contained an unexpected NUL byte" }

/-- The error with a number. The system may also give the negated number, as a 32-bit word, and its
description is used only for errors that are not named here. -/
def ofCode (code : Nat) (description : String) : FileError :=
  let code := if code < 0x80000000 then code else 0x100000000 - code
  let named := [notFound, permissionDenied, notDirectory, isDirectory, nameTooLong]
  (named.find? fun e => e.code == some code).getD ⟨description, some code⟩

/-- The text of the error. -/
def message (e : FileError) : String :=
  match e.code with
  | some code => s!"{e.reason} (os error {code})"
  | none => e.reason

end FileError

/-- Reading and writing of files in a monad. -/
structure FileSystem (m : Type → Type) where
  /-- The text of the file with a path. -/
  read : String → m (Except FileError String)
  /-- Replaces the text of the file with a path, which is created if it does not exist. -/
  write : String → String → m (Except FileError Unit)

end MixedRadix
