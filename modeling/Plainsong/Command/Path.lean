import Plainsong.Text.Slice
/- Paths as texts: directories, names and extensions. -/
namespace Plainsong.Command.Path

def cut (path : String) : String × String :=
  let cs := path.toList.reverse
  let name := (cs.takeWhile (· ≠ '/')).reverse
  (String.ofList (cs.drop name.length).reverse, String.ofList name)

def split (path : String) : String × String :=
  let (head, name) := cut path
  if head.toList.all (· == '/') then (head, name)
  else (String.ofList ((head.toList.reverse.dropWhile (· == '/')).reverse), name)

def name (path : String) : String := (cut path).2

def join (directory path : String) : String :=
  if path.startsWith "/" then path
  else if directory.isEmpty || directory.endsWith "/" then directory ++ path
  else directory ++ "/" ++ path

def splitExtension (path : String) : String × String :=
  let name := (name path).toList
  let points := name.takeWhile (· == '.')
  let rest := name.drop points.length
  let ending := (rest.reverse.takeWhile (· ≠ '.')).reverse
  if ending.length = rest.length then (path, "")
  else (Text.exceptLast (ending.length + 1) path, "." ++ String.ofList ending)

def stem (path : String) : String := (splitExtension (name path)).1

end Plainsong.Command.Path
