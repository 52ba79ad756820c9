/- Sorted tables of code points. A property of characters is a sorted array of
   closed ranges, a character map a sorted array of runs; both are written as
   text (gaps in base 36, in ascending order) and looked up by bisection, so a
   table of any size costs a logarithmic number of comparisons. -/
namespace Plainsong.Text

def digit36 (c : Char) : Nat :=
  if c.isDigit then c.toNat - '0'.toNat
  else if 'a' ≤ c ∧ c ≤ 'z' then c.toNat - 'a'.toNat + 10 else 0

def number36 (s : List Char) : Nat :=
  s.foldl (fun n c => n * 36 + digit36 c) 0

/-- A run of neighbouring code points and what the first of them is sent to. -/
structure Run where
  first : Nat
  last : Nat
  target : List Nat
  deriving Repr, Inhabited

/-- A sorted table of disjoint runs. -/
structure RunTable where
  runs : Array Run

namespace RunTable

/-- The targets of neighbouring characters, several for one character in brackets. -/
def readTargets (s : List Char) : List (List Char) :=
  let read (c : Char) : List (List Char) × Option (List Char) → List (List Char) × Option (List Char)
    | (done, none) => if c = ')' then (done, some []) else ([c] :: done, none)
    | (done, some group) => if c = '(' then (group :: done, none) else (done, some (c :: group))
  (s.foldr read ([], none)).1

/-- The runs a word stands for: `gap.length=target` is one run, `gap*count=target` are characters
    as far apart as their targets, and `gap:targets` are neighbours with a target each, `~` where
    one has none. The targets of `gap@base:targets` are counted from a base, those of
    `gap!before!after!targets` stand between two texts. A run with several targets has points
    between them. -/
def readRuns (prev : Nat) (word : List Char) : List Run :=
  let gap := number36 (word.takeWhile Char.isAlphanum)
  let target := (word.dropWhile (· ≠ '=')).drop 1
  let single (i : Nat) (target : List Nat) : Run := ⟨prev + gap + i, prev + gap + i, target⟩
  let neighbours (targets : List Char) (read : List Char → List Nat) : List Run :=
    (readTargets targets).zipIdx.filterMap fun (t, i) => if t = ['~'] then none else some (single i (read t))
  match word.dropWhile Char.isAlphanum with
  | ':' :: targets => neighbours targets (·.map Char.toNat)
  | '@' :: rest =>
    let base := number36 (rest.takeWhile (· ≠ ':'))
    neighbours ((rest.dropWhile (· ≠ ':')).drop 1) (·.map (base + digit36 ·))
  | '!' :: rest =>
    match rest.splitOn '!' with
    | [before, after, targets] => neighbours targets fun t => (before ++ t ++ after).map Char.toNat
    | _ => []
  | '*' :: rest => (List.range (number36 (rest.takeWhile (· ≠ '=')))).map fun i =>
      single (i * gap) [number36 target + i * gap]
  | rest =>
      [{ first := prev + gap, last := prev + gap + number36 ((rest.takeWhile (· ≠ '=')).drop 1)
         target := if target.isEmpty then [] else (target.splitOn '.').map number36 }]

/-- Reads a table: words in ascending order, separated by single blanks, each
    gap counted from the end of the run before. -/
def ofText (s : String) : RunTable where
  runs := ((s.toList.splitOn ' ').foldl
    (fun (acc : Array Run × Nat) word =>
      let runs := readRuns acc.2 word
      (acc.1 ++ runs, (runs.getLast?.map Run.last).getD acc.2)) (#[], 0)).1

def bisect (runs : Array Run) (c : Nat) : Nat → Nat → Option Run
  | lo, 0 => if lo = 0 then none else runs[lo - 1]?
  | lo, n + 1 =>
    let mid := lo + (n + 1) / 2
    match runs[mid]? with
    | none => none
    | some run => if run.first ≤ c then bisect runs c (mid + 1) (n - (n + 1) / 2)
                  else bisect runs c lo ((n + 1) / 2)
  termination_by _ n => n
  decreasing_by all_goals omega

def find? (t : RunTable) (c : Nat) : Option Run :=
  match bisect t.runs c 0 t.runs.size with
  | some run => if c ≤ run.last then some run else none
  | none => none

def contains (t : RunTable) (c : Char) : Bool :=
  (t.find? c.toNat).isSome

/-- Sends a character to its targets: a single target moves along its run,
    several or no targets are the same for the whole run. -/
def map? (t : RunTable) (c : Char) : Option (List Char) :=
  (t.find? c.toNat).map fun run =>
    match run.target with
    | [x] => [Char.ofNat (x + (c.toNat - run.first))]
    | xs => xs.map Char.ofNat

end RunTable

end Plainsong.Text
