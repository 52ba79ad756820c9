import Plainsong.Abc.Grammar
import Plainsong.Table
/- How the voices of a tune are laid out: which voices share a staff, which
   staves make a grand staff, and which parts are joined by brackets and
   braces. -/
namespace Plainsong.Abc

open Grammar (Fault)

/-- A voice's name, its short name, and the rest of its definition. -/
structure VoiceDef where
  name : String
  short : String
  rest : String
deriving DecidableEq, Repr, Inhabited

abbrev VoiceDefs := Table String VoiceDef

def nameGroup (voices : List String) (defs : VoiceDefs) : VoiceDefs :=
  let known := voices.filterMap fun v => (defs.find? v).map fun d => (v, d)
  match known with
  | [] => defs
  | (first, d) :: _ =>
    match known.find? fun (_, d) => !d.name.isEmpty with
    | some (_, named) => defs.put first { d with name := named.name, short := named.short }
    | none => defs

/-- An entry of a layout: a voice alone, or voices that belong together. -/
inductive Entry where
  | one (voice : String)
  | several (voices : List String)
deriving DecidableEq, Repr

def Entry.voices : Entry → List String
  | .one v => [v]
  | .several vs => vs

abbrev LayoutM := StateT VoiceDefs (Except Fault)

def firstLeaf (leaves : List Leaf) : LayoutM String :=
  match leaves with
  | l :: _ => pure l.asText
  | [] => throw .outOfRange

def voiceOf : Token → LayoutM String
  | .inl n => match n.items with
    | .inr l :: _ => pure l.asText
    | .inl _ :: _ => throw .wrongKind
    | [] => throw .outOfRange
  | .inr _ => throw .noProperty

def itemAt (items : List Token) (i : Nat) : LayoutM Token :=
  match items[i]? with
  | some t => pure t
  | none => throw .outOfRange

/-! ## Staves -/

mutual

def stavesOf (n : Node) : LayoutM (List Entry × Node) := do
  let (es, items) ← stavesIn n.leaves n.items
  return (es, { n with items })
termination_by sizeOf n
decreasing_by
  cases n
  simp
  omega

def stavesIn (leaves : List Leaf) (items : List Token) : LayoutM (List Entry × List Token) := do
  match items with
  | [] => return ([], [])
  | .inl x :: rest =>
    let (us, x) ← stavesOf x
    let (here, item) ← (
      if x.name = "voicegr" then do
        let voices ← x.items.mapM voiceOf
        modify (nameGroup voices)
        return ([Entry.several (us.flatMap Entry.voices)], ← itemAt x.items 0)
      else return (us, .inl x))
    let (es, items) ← stavesIn leaves rest
    return (here ++ es, item :: items)
  | .inr l :: rest =>
    let first ← firstLeaf leaves
    let here := if first = "" || first = "\x7b" || first = "*" || first = "\x7b*" then [] else [Entry.one first]
    let (es, items) ← stavesIn leaves rest
    return (here ++ es, .inr l :: items)
termination_by sizeOf items

end

/-! ## Grand staves -/

mutual

/-- The parts below a node, with the staves of each grand staff together, and
    the node with each grand staff replaced by its first voice. A brace is a
    grand staff if it says so or if exactly one of its voices has a name. -/
def grandsOf (n : Node) : LayoutM (List Entry × Node) := do
  let (es, items) ← grandsIn n.leaves n.items
  return (es, { n with items })
termination_by sizeOf n
decreasing_by
  cases n
  simp
  omega

def grandsIn (leaves : List Leaf) (items : List Token) : LayoutM (List Entry × List Token) := do
  match items with
  | [] => return ([], [])
  | .inl x :: rest =>
    let (us, x) ← grandsOf x
    let (here, item) ← (
      if x.name = "grand" then do
        let voices ← (x.items.drop 1).mapM voiceOf
        let defs ← get
        let names := voices.filterMap fun v => (defs.find? v).map (·.name)
        let isGrand := (names.filter fun s => !s.isEmpty).length = 1 || us.head? = some (.one "\x7b*")
        if isGrand then
          modify (nameGroup voices)
          return ([Entry.several ((us.drop 1).flatMap Entry.voices)], ← itemAt x.items 1)
        else return (us.drop 1, .inl x)
      else return (us, .inl x))
    let (es, items) ← grandsIn leaves rest
    return (here ++ es, item :: items)
  | .inr l :: rest =>
    let first ← firstLeaf leaves
    let (es, items) ← grandsIn leaves rest
    return (.one first :: es, .inr l :: items)
termination_by sizeOf items

end

/-! ## Groups -/

mutual

def groupsOf (n : Node) : LayoutM (List String) := groupsIn n.leaves n.items
termination_by sizeOf n
decreasing_by
  cases n
  simp
  omega

def groupsIn (leaves : List Leaf) (items : List Token) : LayoutM (List String) := do
  match items with
  | [] => return []
  | .inl x :: rest =>
    let inner ← groupsOf x
    let here := match x.name with
      | "vid" => inner
      | "bracketgr" => "[" :: inner ++ ["]"]
      | "bracegr" => "\x7b" :: inner ++ ["\x7d"]
      | _ => inner ++ ["\x7d"]
    return here ++ (← groupsIn leaves rest)
  | .inr _ :: rest => do
    let first ← firstLeaf leaves
    return first :: (← groupsIn leaves rest)
termination_by sizeOf items

end

/-! ## The whole layout -/

/-- A layout: the voices of each staff, the staves of each part, the parts with
    the signs that group them, and for each voice its staff within its part, the
    number of staves of that part, and the part itself. -/
structure Layout where
  staves : List (List String) := []
  grands : List (List String) := []
  groups : List String := []
  staffNumber : Table String Int := []
  staffCount : Table String Int := []
  partOf : Table String String := []
deriving Inhabited

namespace Layout

def numberStaves (onStaff : String → List String) (count : Int) : List String → Int → Layout → Layout
  | [], _, l => l
  | staff :: rest, k, l =>
    let l := (onStaff staff).foldl (fun (l : Layout) v =>
      { l with staffNumber := l.staffNumber.put v k, staffCount := l.staffCount.put v count }) l
    numberStaves onStaff count rest (k + 1) l

def assignPart (onStaff : String → List String) (l : Layout) (staves : List String) : Except Fault Layout :=
  match staves with
  | [] => .error .outOfRange
  | part :: _ =>
    .ok ((staves.flatMap onStaff).foldl (fun (l : Layout) v => { l with partOf := l.partOf.put v part }) l)

def ofNode (score : Node) (partOf : Table String String) : LayoutM Layout := do
  let (staves, score) ← stavesOf score
  let (grands, score) ← grandsOf score
  let groups ← groupsOf score
  let staves := staves.map Entry.voices
  let grands := grands.map Entry.voices
  let shared : Table String (List String) := staves.foldl (fun t vs => match vs with
    | v :: _ :: _ => t.put v vs
    | _ => t) []
  let onStaff := fun v => (shared.find? v).getD [v]
  let l : Layout := { staves, grands, groups, partOf }
  let l := grands.foldl (fun l g => if g.length = 1 then l else numberStaves onStaff g.length g 1 l) l
  grands.foldlM (fun l g => (assignPart onStaff l g : Except Fault Layout)) l

def read (definitions : List String) (defs : VoiceDefs) (r : Reading) :
    Except Fault (Layout × VoiceDefs) × Reading :=
  let partOf : Table String String := defs.foldl (fun t (v, _) => t.put v v) []
  match definitions with
  | [] => (.ok ({ partOf }, defs), r)
  | d :: more =>
    let r := more.foldl (fun r x =>
      r.say ("%%" ++ x ++ " dropped, multiple stave mappings not supported") true) r
    match Abc.read .layout d r with
    | (.error f, r) => (.error f, r)
    | (.ok (.node score :: _), r) => ((ofNode score partOf).run defs, r)
    | (.ok _, r) => (.error .noProperty, r)

end Layout

end Plainsong.Abc
