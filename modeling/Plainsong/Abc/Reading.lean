import Plainsong.Abc.Rhythm
import Plainsong.Grammar.Library
/- What happens while a tune is read: matches become nodes, beams are broken
   where blanks stand between notes, misplaced signs are reported, and each
   measure is settled as soon as it is complete. -/
namespace Plainsong.Abc

open Grammar (Fault Value Match Host GrammarM)

/-- What reading keeps from one match to the next, also across texts. -/
structure Reading where
  /-- Where the last note or rest was found. -/
  lastPlace : Nat := 0
  /-- Messages so far, the latest first, each with its line end. -/
  messages : List String := []
  /-- Whether the notes of chords are put from high to low. -/
  highFirst : Bool := false
deriving Inhabited

def Reading.say (r : Reading) (message : String) (warn : Bool) : Reading :=
  { r with messages := ((if warn then "-- " else "") ++ message ++ "\n") :: r.messages }

/-- What is done with a match. -/
inductive Deed where
  | node (name : String) (keepsOrder : Bool)
  | duration
  /-- The number of tokens, counted up or down. -/
  | count (up : Bool)
  | note
  | rest
  | grace
  | measure
  | misplaced
deriving Inhabited

abbrev ReadM := GrammarM Node Deed Reading

def tokenOf : Value Node → ReadM Token
  | .host n => pure (.inl n)
  | .text s => pure (.inr (.text s))
  | .int n => pure (.inr (.int n))
  | .bool b => pure (.inr (.bool b))
  | _ => throw .wrongKind

def tokensOf (id : Nat) : ReadM (List Token) := do
  (← Grammar.Results.record id).items.toList.mapM tokenOf

def nestedNodes (id : Nat) : ReadM (Nat × List Node) := do
  match ← Grammar.tokenOne id with
  | .results inside =>
    let nodes ← (← Grammar.Results.record inside).items.toList.mapM fun v => match v with
      | .host n => pure n
      | _ => throw .noProperty
    return (inside, nodes)
  | _ => throw .noProperty

def setNodes (id : Nat) (nodes : List Node) : ReadM Unit :=
  Grammar.Results.changeRecord id fun r => { r with items := (nodes.map Value.host).toArray }

def liftFault {α : Type} : Except Fault α → ReadM α
  | .ok a => pure a
  | .error f => throw f

def say (message : String) (warn : Bool) : ReadM Unit :=
  modify fun s => { s with host := s.host.say message warn }

/-- Whether a blank stands between the last note and this one. The text starts
    behind the blanks at which the last match began. -/
def beamBreak (text : Chars) (last here : Nat) : Bool :=
  ((text.extract last (here + 1)).toList.dropWhile Text.isBlank).contains ' '

def timedNode (name : String) (m : Match) (tokens : List Token) : ReadM (Value Node) := do
  let broken := beamBreak m.text (← get).host.lastPlace m.loc
  modify fun s => { s with host := { s.host with lastPlace := m.loc } }
  let mark : Node := { name := "bbrk", leaves := [.bool broken] }
  return .host (Node.ofTokens name (.inl mark :: tokens) false)

def pointTo (text : Chars) (loc : Nat) : String × String :=
  let (shown, at_) := if 40 < loc then (text.extract (loc - 40) (loc + 40), 40) else (text, loc)
  (String.ofList (shown.toList.map fun c => if c = '\n' then ' ' else c),
    String.ofList (List.replicate at_ '-') ++ "^")

def Deed.perform (m : Match) : Deed → ReadM (Value Node)
  | .node name keepsOrder => do return .host (Node.ofTokens name (← tokensOf m.tokens) keepsOrder)
  | .duration => do
    match (← Grammar.Results.record m.tokens).items.toList with
    | [.int num, .results slashes, .int den] =>
      let k := (← Grammar.Results.record slashes).items.size
      return .host (Node.duration num ((den * Int.pow 2 k).fdiv 2))
    | _ => throw .wrongKind
  | .count up => do
    let n : Int := (← Grammar.Results.record m.tokens).items.size
    return .int (if up then n else -n)
  | .note => do
    let tokens ← tokensOf m.tokens
    match tokens with
    | .inl first :: _ =>
      if first.leaves.contains (.text "y") then return .list []
      else timedNode "note" m tokens
    | _ :: _ => throw .noProperty
    | [] => throw .outOfRange
  | .rest => do timedNode "rest" m (← tokensOf m.tokens)
  | .grace => do
    let (inside, nodes) ← nestedNodes m.tokens
    setNodes inside (markGrace (← liftFault (spreadChords (← get).host.highFirst nodes)))
    return .results inside
  | .measure => do
    let (inside, nodes) ← nestedNodes m.tokens
    let b := breakRhythm nodes
    for w in b.warnings do
      say w true
    match b.fault with
    | some f => throw f
    | none =>
      setNodes inside (← liftFault (spreadChords (← get).host.highFirst b.out.toList))
      return .none
  | .misplaced => do
    match ← Grammar.tokenOne m.tokens with
    | .text s =>
      if !s.isEmpty then
        let (line, pointer) := pointTo m.text m.loc
        say ("**misplaced symbol: " ++ s) false
        say line false
        say pointer false
      return .list []
    | _ => return .list []

def host : Host Node Deed Reading where
  arity
    | .note | .rest | .misplaced => some 3
    | _ => some 1
  tokensOnly := fun _ => false
  perform := fun d m => d.perform m
  notify := fun _ _ => pure ()
  describe := Node.shown

end Plainsong.Abc
