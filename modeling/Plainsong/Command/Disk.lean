import Plainsong.Table
/- A working directory: files and directories below it, by their paths. -/
namespace Plainsong.Command

/-- Why a file cannot be read or written. -/
inductive DiskFault where
  | missing
  | isDirectory
  | notDirectory
deriving DecidableEq, Repr

def DiskFault.message : DiskFault → String
  | .missing => "FileNotFoundError(2, 'No such file or directory')"
  | .isDirectory => "IsADirectoryError(21, 'Is a directory')"
  | .notDirectory => "NotADirectoryError(20, 'Not a directory')"

/-- What a file holds: bytes, or an archive of texts with their names. -/
inductive Content where
  | bytes (b : ByteArray)
  | archive (entries : List (String × String))

def Content.asBytes : Content → ByteArray
  | .bytes b => b
  | .archive _ => ⟨#[]⟩

/-- A working directory. Paths are lists of names. -/
structure Disk where
  files : Table (List String) Content := []
  directories : List (List String) := []

namespace Disk

def namesOf (path : String) : Option (List String) :=
  if path.startsWith "/" then none
  else (path.splitOn "/").foldlM (fun (acc : List String) name =>
    if name = "" || name = "." then some acc
    else if name = ".." then (if acc.isEmpty then none else some acc.dropLast)
    else some (acc ++ [name])) []

def isDirectory (d : Disk) (names : List String) : Bool :=
  names.isEmpty || d.directories.contains names
    || d.directories.any (fun p => names.isPrefixOf p) || d.files.any fun (p, _) => names.isPrefixOf p && names ≠ p

def isFile (d : Disk) (names : List String) : Bool := d.files.holds names

def pathExists (d : Disk) (path : String) : Bool :=
  !path.isEmpty && match namesOf path with
    | some names => d.isDirectory names || (d.isFile names && !path.endsWith "/")
    | none => false

def pathIsDirectory (d : Disk) (path : String) : Bool :=
  !path.isEmpty && match namesOf path with
    | some names => d.isDirectory names
    | none => false

def isBlocked (d : Disk) (names : List String) : Bool :=
  (List.range names.length).any fun i => d.isFile (names.take i)

def read (d : Disk) (path : String) : Except DiskFault Content :=
  match namesOf path with
  | none => .error .missing
  | some names =>
    if path.isEmpty then .error .missing
    else if d.isDirectory names then .error .isDirectory
    else match d.files.find? names with
      | some c => if path.endsWith "/" then .error .notDirectory else .ok c
      | none => if d.isBlocked names then .error .notDirectory else .error .missing

def write (d : Disk) (path : String) (c : Content) : Except DiskFault Disk :=
  match namesOf path with
  | none => .error .missing
  | some names =>
    if path.isEmpty then .error .missing
    else if d.isDirectory names then .error .isDirectory
    else if d.isBlocked names then .error .notDirectory
    else if !d.isDirectory names.dropLast then .error .missing
    else if path.endsWith "/" then .error (if d.isFile names then .notDirectory else .isDirectory)
    else .ok { d with files := d.files.put names c }

def makeDirectory (d : Disk) (path : String) : Except DiskFault Disk :=
  match namesOf path with
  | none => .error .missing
  | some names =>
    if d.isBlocked names then .error .notDirectory
    else if !d.isDirectory names.dropLast then .error .missing
    else .ok { d with directories := d.directories ++ [names] }

end Disk

end Plainsong.Command
