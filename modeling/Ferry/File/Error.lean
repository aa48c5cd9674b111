/-!
# Errors of the file system
-/

namespace Ferry

inductive FileError where
  | notFound
  | alreadyExists
  | notDirectory
  | isDirectory
  | nameTooLong
  /-- More links than are followed on one path. -/
  | tooManyLinks
  /-- The path holds the character that ends a path. -/
  | nulInPath
  /-- What is to be copied is no file. -/
  | notRegular
  /-- What is to be copied has no name. -/
  | noFileName
  /-- Not even the first directory of a path could be made. -/
  | noAncestor
deriving DecidableEq, Repr

namespace FileError

/-- The number the operating system gives the error. -/
def number? : FileError → Option Nat
  | notFound => some 2
  | alreadyExists => some 17
  | notDirectory => some 20
  | isDirectory => some 21
  | nameTooLong => some 36
  | tooManyLinks => some 40
  | _ => none

def words : FileError → String
  | notFound => "No such file or directory"
  | alreadyExists => "File exists"
  | notDirectory => "Not a directory"
  | isDirectory => "Is a directory"
  | nameTooLong => "File name too long"
  | tooManyLinks => "Too many levels of symbolic links"
  | nulInPath => "file name contained an unexpected NUL byte"
  | notRegular => "the source path is neither a regular file nor a symlink to a regular file"
  | noFileName => "source has no file name"
  | noAncestor => "failed to create whole tree"

def message (e : FileError) : String :=
  match e.number? with
  | none => e.words
  | some n => e.words ++ " (os error " ++ toString n ++ ")"

end FileError

end Ferry
