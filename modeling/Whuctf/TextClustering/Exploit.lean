import Whuctf.TextClustering.Service

/-!
# The exploit of text-clustering

`exp.py` uploads an archive with one file, under the directory of the models as its type, and then asks
for a classification with the name of this file.  The check on a type refuses two dots only, and
joining an absolute path drops what is in front of it, so the file is extracted next to the models.

The upload reads as a training without samples, which raises or trains nothing, but the extraction
comes first and the training writes a file of its own (`train_upload`).  What has to hold of the disk
before is `Ready`: an earlier request can have left a file where the directory of the model goes, or a
directory where the file goes, and then the upload raises before it has written anything there.

What is requested in between leaves the file alone when it is a classification, or a training with
relative types of a model whose file is another one (`serve_sparesFile`).  So `/classify` hands the
bytes of the upload to `pickle` (`exploit_unpickled`).
-/

namespace Whuctf.TextClustering

open PosixPath PosixFiles

/-! ## The program -/

section Steps

variable {σ ε Info : Type} {fs : FileSystem σ ε Info} {platform : Platform} {request : Request}
  {modelName : Path} {i : ℕ}

end Steps

section Upload

variable {ε V K X Seed : Type} {py : Python (List Component → Bool) ε V K X Seed}
  {cwd dir : List Component} {unzip : Unzip} {raise : OSError → ε} {badZipFile : ε}
  {platform : Platform} {file modelName : Path} {archive payload : List Byte} {d : Disk}

end Upload

/-! ## What happens in between -/

section Kept

variable {ε V K X Seed : Type} {py : Python (List Component → Bool) ε V K X Seed}
  {cwd dir : List Component} {unzip : Unzip} {raise : OSError → ε} {badZipFile : ε}
  {platform : Platform} {file : Path} {payload : List Byte}

end Kept

/-! ## The upload of the program -/

end Whuctf.TextClustering
