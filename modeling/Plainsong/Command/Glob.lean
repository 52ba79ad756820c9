import Plainsong.Command.Disk
import Plainsong.Command.Path
/- File names by pattern: a star for any letters, a question mark for one letter,
   and brackets for one of several letters. -/
namespace Plainsong.Command.Glob

/-- A part of a pattern. -/
inductive Piece where
  | letter (c : Char)
  | one
  | any
  | oneOf (negated : Bool) (ranges : List (Char × Char))

def ranges : List Char → List (Char × Char)
  | a :: '-' :: b :: rest => (a, b) :: ranges rest
  | a :: rest => (a, a) :: ranges rest
  | [] => []

/-- The letters up to the closing bracket, and what follows it; a bracket that
    stands first does not close. -/
def bracket? (cs : List Char) : Option (List Char × List Char) :=
  let (first, rest) := match cs with
    | '!' :: ']' :: r => (['!', ']'], r)
    | '!' :: r => (['!'], r)
    | ']' :: r => ([']'], r)
    | r => ([], r)
  let inner := rest.takeWhile (· ≠ ']')
  if inner.length = rest.length then none else some (first ++ inner, rest.drop (inner.length + 1))

def pieces : Nat → List Char → List Piece
  | 0, _ => []
  | _, [] => []
  | fuel + 1, '*' :: rest => .any :: pieces fuel rest
  | fuel + 1, '?' :: rest => .one :: pieces fuel rest
  | fuel + 1, '[' :: rest =>
    match bracket? rest with
    | some ('!' :: inner, behind) => .oneOf true (ranges inner) :: pieces fuel behind
    | some (inner, behind) => .oneOf false (ranges inner) :: pieces fuel behind
    | none => .letter '[' :: pieces fuel rest
  | fuel + 1, c :: rest => .letter c :: pieces fuel rest

def fits : List Piece → List Char → Bool
  | [], cs => cs.isEmpty
  | .letter a :: ps, c :: cs => a == c && fits ps cs
  | .one :: ps, _ :: cs => fits ps cs
  | .oneOf negated rs :: ps, c :: cs =>
    (rs.any (fun (a, b) => a ≤ c && c ≤ b) != negated) && fits ps cs
  | .any :: ps, cs => fitsSome ps cs
  | _, [] => false
where
  /-- Whether some end of the name is of the form. -/
  fitsSome (ps : List Piece) : List Char → Bool
    | [] => fits ps []
    | c :: cs => fits ps (c :: cs) || fitsSome ps cs

def hasMagic (s : String) : Bool := s.toList.any fun c => c = '*' || c = '?' || c = '['

def namesIn (d : Disk) (directory : List String) : List String :=
  let paths := d.files.map (·.1) ++ d.directories
  let below := paths.filterMap fun p => if directory.isPrefixOf p then p[directory.length]? else none
  (below.eraseDups).mergeSort

/-- The paths of a pattern; only the last name may be a pattern. Hidden names do
    not fit a pattern that does not begin with a point. -/
def expand (d : Disk) (pattern : String) : List String :=
  if !hasMagic pattern then (if d.pathExists pattern then [pattern] else [])
  else
    let (directory, name) := Path.split pattern
    match Disk.namesOf directory with
    | none => []
    | some names =>
      if !d.isDirectory names then [] else
      let ps := pieces (name.length + 1) name.toList
      let found := (namesIn d names).filter fun n =>
        (name.startsWith "." || !n.startsWith ".") && fits ps n.toList
      found.map fun n => if directory.isEmpty then n else Path.join directory n

end Plainsong.Command.Glob
