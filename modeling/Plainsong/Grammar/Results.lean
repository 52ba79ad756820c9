import Plainsong.Grammar.State
/- Parse results: ordered tokens with named values. Results are shared; making
   a result of a result gives the same one, copies share their lists of named
   values, and moving tokens moves the positions in those lists for all who
   share them. -/
namespace Plainsong.Grammar.Results

variable {ν κ σ : Type}

def record (id : Nat) : GrammarM ν κ σ (Record ν) := do
  match (← get).records[id]? with
  | some r => return r
  | none => throw .noProperty

def addRecord (r : Record ν) : GrammarM ν κ σ Nat := do
  let id := (← get).records.size
  modify fun s => { s with records := s.records.push r }
  return id

def changeRecord (id : Nat) (f : Record ν → Record ν) : GrammarM ν κ σ Unit :=
  modify fun s => { s with records := s.records.modify id f }

def occurrences (slot : Nat) : GrammarM ν κ σ (List (Occurrence ν)) := do
  return ((← get).occurrences[slot]?).getD []

def addOccurrences (xs : List (Occurrence ν)) : GrammarM ν κ σ Nat := do
  let slot := (← get).occurrences.size
  modify fun s => { s with occurrences := s.occurrences.push xs }
  return slot

def ofItems (items : Array (Value ν)) : GrammarM ν κ σ Nat := addRecord { items }

/-- The result that stands for a value: a result is its own, a list gives its
    items, anything else is a single token. -/
def ofValue : Value ν → GrammarM ν κ σ Nat
  | .results id => pure id
  | .list xs => ofItems xs.toArray
  | v => ofItems #[v]

def putName (names : List (String × Nat)) (key : String) (slot : Nat) : List (String × Nat) :=
  if names.any (·.1 == key) then names.map fun p => if p.1 == key then (key, slot) else p
  else names ++ [(key, slot)]

def adopt (parent : Nat) : Value ν → GrammarM ν κ σ Unit
  | .results id => changeRecord id fun r => { r with parent := some parent }
  | _ => pure ()

def setNamed (id : Nat) (key : String) (v : Value ν) (offset : Int) : GrammarM ν κ σ Unit := do
  let r ← record id
  let old ← match r.names.lookup key with
    | some slot => occurrences slot
    | none => pure []
  let slot ← addOccurrences (old ++ [⟨v, offset⟩])
  changeRecord id fun r => { r with names := putName r.names key slot }
  adopt id v

def copy (id : Nat) : GrammarM ν κ σ Nat := do addRecord (← record id)

def lastNamed? (id : Nat) (key : String) : GrammarM ν κ σ (Option (Value ν)) := do
  match (← record id).names.lookup key with
  | some slot => return ((← occurrences slot).getLast?).map (·.value)
  | none => return none

def named (id : Nat) (key : String) : GrammarM ν κ σ (Value ν) := do
  let r ← record id
  match r.names.lookup key with
  | none => throw .unknownName
  | some slot =>
    let xs ← occurrences slot
    if r.cumulative.contains key then
      return .results (← ofItems (xs.map (·.value)).toArray)
    else match xs.getLast? with
      | some o => return o.value
      | none => throw .outOfRange

def firstOf : Value ν → GrammarM ν κ σ (Value ν)
  | .text s => match s.toList with
    | c :: _ => pure (.text (String.singleton c))
    | [] => throw .outOfRange
  | .list xs => match xs with
    | x :: _ => pure x
    | [] => throw .outOfRange
  | .tuple xs => match xs with
    | x :: _ => pure x
    | [] => throw .outOfRange
  | .results id => do match (← record id).items[0]? with
    | some v => pure v
    | none => throw .outOfRange
  | _ => throw .wrongKind

def isVoid : Value ν → Bool
  | .none => true
  | .text s => s.isEmpty
  | .list [] => true
  | _ => false

/-- Makes a result of tokens, under a results name if one is given. A name
    names a copy of the tokens if they are saved as a list, else the first of
    them. -/
def make (tokens : Value ν) (name : Option String) (asList modal : Bool) :
    GrammarM ν κ σ Nat := do
  let id ← ofValue tokens
  match name with
  | none => return id
  | some "" => return id
  | some key =>
    changeRecord id fun r =>
      { r with
        cumulative := if modal || r.cumulative.contains key then r.cumulative else r.cumulative ++ [key]
        name := some key }
    if isVoid tokens then return id
    let tokens := match tokens with
      | .text s => .list [.text s]
      | v => v
    if asList then
      let sub ← match tokens with
        | .results t => copy t
        | v => do ofValue (← firstOf v)
      setNamed id key (.results sub) 0
      if !(← record id).cumulative.contains key then
        changeRecord sub fun r => { r with name := some key }
    else
      match ← attempt (firstOf tokens) with
      | .ok v => setNamed id key v 0
      | .error _ => setNamed id key tokens 0
    return id

def isPresent (id : Nat) : GrammarM ν κ σ Bool := do
  let r ← record id
  return !r.items.isEmpty || !r.names.isEmpty

def shifted (offset : Nat) (a : Int) : Int :=
  if a < 0 && offset != 0 then offset else a + offset

def append (a b : Nat) : GrammarM ν κ σ Unit := do
  let other ← record b
  if !other.names.isEmpty then
    let offset := (← record a).items.size
    let mut entries : Array (String × Value ν × Int) := #[]
    for (key, slot) in other.names do
      for o in ← occurrences slot do
        entries := entries.push (key, o.value, shifted offset o.offset)
    for (key, v, i) in entries do
      setNamed a key v i
  changeRecord a fun r =>
    { r with
      items := r.items ++ other.items
      cumulative := r.cumulative ++ other.cumulative.filter (fun k => !r.cumulative.contains k) }

def moveOffsets (id : Nat) (f : Int → Int) : GrammarM ν κ σ Unit := do
  for (_, slot) in (← record id).names do
    modify fun s => { s with
      occurrences := s.occurrences.modify slot fun xs => xs.map fun o => { o with offset := f o.offset } }

def insert (id : Nat) (i : Int) (v : Value ν) : GrammarM ν κ σ Unit := do
  let n := (← record id).items.size
  changeRecord id fun r =>
    let k := clip n i
    { r with items := r.items.extract 0 k ++ #[v] ++ r.items.extract k n }
  moveOffsets id fun p => if i < p then p + 1 else p

/-- Removes the tokens at the given positions (in ascending order); values
    named at later positions move back. -/
def removeAt (id : Nat) (positions : List Nat) : GrammarM ν κ σ Unit := do
  changeRecord id fun r =>
    { r with items := ((r.items.toList.zipIdx.filter fun p => !positions.contains p.2).map (·.1)).toArray }
  for j in positions.reverse do
    moveOffsets id fun p => if (j : Int) < p then p - 1 else p

def removeIndex (id : Nat) (i : Int) : GrammarM ν κ σ Unit := do
  match index? (← record id).items.size i with
  | some k => removeAt id [k]
  | none => throw .outOfRange

def clear (id : Nat) : GrammarM ν κ σ Unit := do
  removeAt id (List.range (← record id).items.size)

def removeName (id : Nat) (key : String) : GrammarM ν κ σ Unit := do
  if (← record id).names.any (·.1 == key) then
    changeRecord id fun r => { r with names := r.names.filter (·.1 != key) }
  else throw .unknownName

def itemAt (id : Nat) (i : Int) : GrammarM ν κ σ (Value ν) := do
  let r ← record id
  match index? r.items.size i with
  | some k => return r.items.getD k .none
  | none => throw .outOfRange

def setItem (id : Nat) (i : Int) (v : Value ν) : GrammarM ν κ σ Unit := do
  match index? (← record id).items.size i with
  | some k => changeRecord id fun r => { r with items := r.items.setIfInBounds k v }
  | none => throw .outOfRange
  adopt id v

def plainAt : Nat → Value ν → GrammarM ν κ σ (Value ν)
  | 0, _ => throw .tooDeep
  | depth + 1, .results id => do
    return .list (← (← record id).items.toList.mapM (plainAt depth))
  | _ + 1, v => pure v

def depthLimit : Nat := 900

def asList (id : Nat) : GrammarM ν κ σ (List (Value ν)) := do
  (← record id).items.toList.mapM (plainAt depthLimit)

def entries (id : Nat) : GrammarM ν κ σ (List (String × Value ν)) := do
  (← record id).names.mapM fun (key, _) => return (key, ← named id key)

def add (a b : Nat) : GrammarM ν κ σ Nat := do
  let id ← copy a
  append id b
  return id

def reach (s : State ν κ σ) : Nat → List (Value ν) → Array Bool → Array Bool
  | 0, _, seen => seen
  | _, [], seen => seen
  | fuel + 1, .results id :: rest, seen =>
    if seen.getD id true then reach s fuel rest seen
    else
      let r := s.records.getD id default
      let named := r.names.flatMap fun (_, slot) => ((s.occurrences[slot]?).getD []).map (·.value)
      reach s fuel (r.items.toList ++ named ++ rest) (seen.setIfInBounds id true)
  | fuel + 1, .list xs :: rest, seen => reach s fuel (xs ++ rest) seen
  | fuel + 1, .tuple xs :: rest, seen => reach s fuel (xs ++ rest) seen
  | fuel + 1, _ :: rest, seen => reach s fuel rest seen

/-- Whether a result is still in use, given the values that are held: those,
    what is in memory, and all that these contain. -/
def isAlive (held : List (Value ν)) (id : Nat) : GrammarM ν κ σ Bool := do
  let s ← get
  let remembered := s.memory.toList.filterMap fun (_, outcome) =>
    match outcome with
    | .ok (_, r) => some (Value.results r)
    | .error _ => none
  let fuel := 16 * (s.records.size + s.occurrences.size) + 1024
  let seen := reach s fuel (held ++ remembered) (Array.replicate s.records.size false)
  return seen.getD id false

def nameOf (id sub : Nat) : GrammarM ν κ σ (Option String) := do
  for (key, slot) in (← record id).names do
    for o in ← occurrences slot do
      match o.value with
      | .results i => if i = sub then return some key
      | _ => pure ()
  return none

/-- The name of a result: its own, or the one its parent (if it is still in
    use and has tokens) gives it. A lone token with a lone name but no parent
    is refused. -/
def nameFor (held : List (Value ν)) (id : Nat) : GrammarM ν κ σ (Option String) := do
  let r ← record id
  match r.name with
  | some key => return some key
  | none =>
    match r.parent with
    | some p =>
      if (← isAlive held p) && !(← record p).items.isEmpty then nameOf p id else return none
    | none =>
      if r.items.size = 1 && r.names.length = 1 then throw .wrongKind
      return none

end Plainsong.Grammar.Results
