import Plainsong.Chant.Summary
/- Properties of signs, asked for and set one at a time. A property that a sign
   does not have is that of the sign before it, and one that cannot be set on a
   sign is set on the sign before it. -/
namespace Plainsong.Chant

inductive Property where
  | before
  | behind
  | code
  | neume
  /-- the text in Lilypond, and the part of it the sign was given -/
  | lily
  | givenLily
  /-- the text in ABC, and the part of it the sign was given -/
  | abc
  | givenAbc
  | accidentals
  | pitch
  | pitchName
  | duration
  | nuances
  | opensElement
  | other (name : String)
  deriving DecidableEq

def Property.key : Property → String
  | other name => name
  | behind => "+behind"
  | code => "+code"
  | neume => "+neume"
  | givenLily => "+lily"
  | givenAbc => "+abc"
  | pitch => "+pitch"
  | pitchName => "+name"
  | nuances => "+nuances"
  | opensElement => "+opens"
  | _ => "+"

def tableText (t : Table String Int) : String :=
  "\x7b" ++ ", ".intercalate (t.map fun (k, v) => Text.quoted k ++ ": " ++ toString v) ++ "\x7d"

namespace Act

def signShown (i : Option Nat) : Act Datum := do
  match i with
  | some j => return .text (← sign j).shown
  | none => return .text (Datum.literal .none)

def ownProperty (i : Nat) (p : Property) : Act (Option Datum) := do
  let s ← sign i
  match s.extra.find? p.key with
  | some d => return some d
  | none =>
    match p with
    | .before => return some (← signShown s.before)
    | .behind => return some (← signShown s.behind)
    | .code => return some (.text s.code)
    | .neume => return some (.text (Score.listText (((← get).signsOf s.neume).map (·.shown))))
    | .lily => return some (.text (← ofValue s.lilyText))
    | .givenLily => return some (.text s.lily)
    | .abc => return some (.text (← ofValue s.abcText))
    | .givenAbc => return some (.text s.abc)
    | .pitch => return s.pitch.map Datum.int
    | .pitchName => return if s.kind.sounds then some (.text (frenchName (s.pitch.getD 0))) else none
    | .duration => return s.duration
    | .nuances => return s.nuances.map fun ns => .text (Datum.literal (.list (ns.map .text)))
    | .opensElement => return s.opensElement.map .bool
    | .accidentals => return none
    | .other _ => return none

def firstProperty (p : Property) : List Nat → Act Datum
  | [] => fail .noProperty
  | i :: rest => do
    match ← ownProperty i p with
    | some d => return d
    | none => firstProperty p rest

def property (i : Nat) (p : Property) : Act Datum := do
  match p with
  | .accidentals =>
    match ← accidentalsOf i with
    | .table n => return .text (tableText ((← get).table n))
    | .loose d => return d
  | p => firstProperty p ((← get).chain (some i))

def keep (i : Nat) (p : Property) (d : Datum) : Act Unit :=
  changeSign i fun s => { s with extra := s.extra.put p.key d }

def setText (change : Sign → Sign) (i : Nat) : Act Unit := do
  let s ← get
  let j ← need .noProperty ((s.chain (some i)).find? fun j =>
    !(s.sign j).kind.sounds && (s.sign j).kind != .bar)
  changeSign j change

def textsOf? : Datum → Option (List String)
  | .list items => items.mapM fun d => match d with
    | .text s => some s
    | _ => none
  | _ => none

def setProperty (i : Nat) (p : Property) (d : Datum) : Act Unit := do
  let own (change : Sign → Sign) : Act Unit :=
    changeSign i fun s => change { s with extra := s.extra.erase p.key }
  match p, d with
  | .before, d =>
    setBefore i none
    if d.isTrue then fail .noProperty
  | .behind, .none => own ({ · with behind := none })
  | .code, .text s => own ({ · with code := s })
  | .lily, .text t => setText ({ · with lily := t }) i
  | .abc, .text t => setText ({ · with abc := t }) i
  | .givenLily, .text t => own ({ · with lily := t })
  | .givenAbc, .text t => own ({ · with abc := t })
  | .accidentals, d => setAccidentals i (.loose d)
  | .pitch, .int n => own ({ · with pitch := some n })
  | .pitchName, d => do
    let s ← get
    keep (← need .noProperty ((s.chain (some i)).find? fun j => !(s.sign j).kind.sounds)) p d
  | .duration, d => setDuration i d
  | .nuances, d =>
    match textsOf? d with
    | some ns => own ({ · with nuances := some ns })
    | none => keep i p d
  | .opensElement, .bool b => own ({ · with opensElement := some b })
  | p, d => keep i p d

/-! ## Places -/

def syllableAt (word place : Int) : Act Nat := do
  let s ← get
  let w ← need .outOfRange (itemAt? s.text word)
  need .outOfRange (itemAt? (s.word w).syllables place)

def neumeAt (word place : Int) : Act Nat := do
  let k ← syllableAt word place
  return ((← get).syllable k).neume

def signAt (word place sign : Int) : Act Nat := do
  let n ← neumeAt word place
  need .outOfRange (itemAt? (← neume n).signs sign)

end Act

end Plainsong.Chant
