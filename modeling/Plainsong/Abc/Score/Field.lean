import Plainsong.Abc.Meter
import Plainsong.Abc.Score.Directive
/- Fields in the music: meter, key, unit length, tempo, voice and others. -/
namespace Plainsong.Abc.Score

open Grammar (Fault)

/-! ## Lengths -/

def unitLength? (s : String) : Option (List Int) :=
  (s.splitOn "/").mapM fun n => Text.readInt (Text.trim n).toList

def allowedUnit? : List Int → Option (Int × Int)
  | a :: b :: _ => if noteTypes.holds b then some (a, b) else none
  | _ => none

/-! ## Meter -/

def meterField (field : String) (level : Int) : ScoreM Pending := do
  if field = "none" then return []
  let field := if field = "C" then "4/4" else if field = "C|" then "2/2" else field
  let e ← elem "time" []
  let field ← (
    if Text.has field "/" then return field
    else do
      warn ("M:" ++ field ++ " not recognized, 4/4 assumed")
      return "4/4")
  let parts := field.splitOn "/"
  let beats := parts.getD 0 ""
  let beatType := parts.getD 1 ""
  let length := do
    let n ← Meter.value? beats
    let d ← Text.readInt (Text.trim beatType).toList
    (simplify n d).toOption
  let (beats, beatType) ← (match length with
    | some l => do
      modify fun s => { s with measureLength := l }
      return (beats, beatType)
    | none => do
      warn ("error in M:" ++ field ++ ", 4/4 assumed")
      modify fun s => { s with measureLength := (4, 4) }
      return ("4", "4"))
  let _ ← addText e "beats" beats (level + 2)
  let _ ← addText e "beat-type" beatType (level + 2)
  return [(3, e)]

/-! ## Key -/

def keySign : Matcher := Matcher.of "\\s*([A-G][#b]?)\\s*([a-zA-Z]*)"
def alterSigns : Matcher := Matcher.of "\\s((\\s?[=^_][A-Ga-g])+)"
def alterSign : Matcher := Matcher.of "[=^_][A-Ga-g]"

def sharpSteps : List String := ["F", "C", "G", "D", "A", "E", "B"]

def altersOf (fifths : Int) : Table String String :=
  if 0 ≤ fifths then (sharpSteps.take fifths.toNat).map fun s => (s, "1")
  else (sharpSteps.drop (7 - (-fifths).toNat)).map fun s => (s, "-1")

def keyOf? (field : String) : Option (Int × String) := do
  let g ← keySign.textsAtStart? field
  let mode := Text.first 3 (Text.lower (g.getD 2 ""))
  let mode := if modes.holds mode then mode else "maj"
  let place ← sharpness.idxOf? (g.getD 1 "")
  let (home, name) ← modes.find? mode
  return (place - home, name)

def listedAlters? (field : String) : Option (List (String × String)) := do
  let g ← alterSigns.texts? (" " ++ field)
  let text := (g.getD 1 "").toList.toArray
  return (alterSign.all text).map fun m =>
    let sign := m.whole text
    (Text.behind 1 sign, (alterations.find? (Text.first 1 sign)).getD "")

def listedKey (listed : List (String × String)) (level : Int) : ScoreM Pending := do
  modify fun s => { s with
    keyAlters := listed.foldl (fun t (letter, alter) => t.put (Text.upper letter) alter) s.keyAlters }
  let k ← elem "key" []
  let lower := (listed.filter fun (letter, _) => Text.upper letter ≠ letter).map fun (letter, _) => Text.upper letter
  let sorted := (← get).keyAlters.mergeSort fun a b => decide (a.1 ≤ b.1)
  let shown := sorted.filter fun (_, alter) => alter ≠ "0"
  modify fun s => { s with keyAlters := s.keyAlters.filter fun (_, alter) => alter ≠ "0" }
  for (step, alter) in shown do
    let _ ← addText k "key-step" step (level + 2)
    let _ ← addText k "key-alter" alter (level + 2)
  for (step, _) in shown do
    let _ ← addNew k "key-octave" [("number", if lower.contains step then "5" else "4")] (level + 2)
  return if shown.isEmpty then [] else [(2, k)]

def keyField (field : String) (level : Int) : ScoreM Pending := do
  let key := keyOf? field
  if let some (fifths, _) := key then modify fun s => { s with keyAlters := altersOf fifths }
  let key := match key with
    | some k => some k
    | none => if field.startsWith "none" || field.isEmpty then some (0, "major") else none
  let pending ← (match listedAlters? field, key with
    | some listed, _ => listedKey listed level
    | none, some (fifths, mode) => do
      let k ← elem "key" []
      let _ ← addText k "fifths" (toString fifths) (level + 2)
      let _ ← addText k "mode" mode (level + 2)
      return [(2, k)]
    | none, none => return [])
  return pending ++ (← clefField field level)

/-! ## Tempo -/

def tempoSign : Matcher := Matcher.of "(\\d)/(\\d\\d?)\\s*=\\s*(\\d[.\\d]*)|(\\d[.\\d]*)"
def quotedText : Matcher := Matcher.of "\"([^\"]*)\""

/-- A tempo: so many beats a minute, a beat being a fraction of a whole note. -/
structure Tempo where
  num : Int
  den : Int
  perMinute : Float

def tempoOf? (unit : Int) (g : Array String) : Option Tempo := do
  if !(g.getD 4 "").isEmpty then
    return { num := 1, den := unit, perMinute := ← Decimal.read? (g.getD 4 "") }
  else
    let num ← Text.readInt (g.getD 1 "").toList
    let den ← Text.readInt (g.getD 2 "").toList
    return { num, den, perMinute := ← Decimal.read? (g.getD 3 "") }

def beatsText (x : Float) : String := Text.trimEndChars ['.'] (Text.trimEndChars ['0'] (Decimal.fixed 2 x))

def metronome (t : Tempo) : ScoreM (Nat × List Nat) := do
  let dotted := t.num = 3
  let den := if dotted then t.den.fdiv 2 else t.den
  let m ← elem "metronome" []
  let unit ← elemWithText "beat-unit" ((noteTypes.find? (4 * den)).getD "quarter")
  let count ← elemWithText "per-minute" (beatsText t.perMinute)
  if dotted then return (m, [unit, ← elem "beat-unit-dot" [], count])
  else return (m, [unit, count])

def tempoField (measure : Nat) (field : String) (level : Int) : ScoreM Unit := do
  let words := (quotedText.texts? field).map fun g => g.getD 1 ""
  let numbers := tempoSign.texts? field
  if words.isNone && numbers.isNone then return
  let spoken : List (Nat × List Nat) ← (match words with
    | some w => return [(← elemWithText "words" w, [])]
    | none => return [])
  let byWords : Tempo :=
    { num := 1, den := 4
      perMinute := Decimal.ofInt ((tempos.find? (Text.trim (Text.lower (words.getD "")))).getD 120) }
  let (tempo, counted) ← (match numbers with
    | none => return (some byWords, [])
    | some g => do
      match tempoOf? (← get).unitNow.2 g with
      | none =>
        warn ("conversion error: " ++ field)
        return (none, [])
      | some t =>
        let (num, den) ← lowest t.num t.den
        let t := { t with num, den }
        return (some t, [← metronome t]))
  match tempo with
  | none => pure ()
  | some t =>
    let direction ← addDirection measure (spoken ++ counted) level (← staff) "above" false
    if t.num ≠ 1 && t.num ≠ 3 then
      warn ("in Q: numerator in " ++ toString t.num ++ "/" ++ toString t.den ++ " not supported")
    if t.den = 0 then throw .dividedByZero
    let quarters := 4.0 * Decimal.ofInt t.num * t.perMinute / Decimal.ofInt t.den
    let sound ← elem "sound" [("tempo", Decimal.fixed 2 quarters)]
    addElem direction sound (level + 1)

/-! ## All fields -/

def field (measure : Nat) (level : Int) (kind text : String) : ScoreM Pending := do
  if text.isEmpty then return []
  match kind with
  | "Div" => return [(1, ← elemWithText "divisions" text)]
  | "gstaff" => return [(4, ← elemWithText "staves" text)]
  | "M" => meterField text level
  | "K" => keyField text level
  | "L" =>
    let unit := (unitLength? text).getD [1, 8]
    match allowedUnit? unit with
    | some u => modify fun s => { s with unitNow := u }
    | none =>
      warn ("L:" ++ text ++ " is not allowed, 1/8 assumed")
      modify fun s => { s with unitNow := (1, 8) }
    return []
  | "V" => clefField text level
  | "I" => directive (some measure) text level
  | "Q" =>
    tempoField measure text level
    return []
  | "P" =>
    let e ← elemWithText "rehearsal" text
    setAttr e "font-weight" "bold"
    let _ ← addDirection measure [(e, [])] level (← staff) "above" false
    return []
  | _ =>
    if Text.has "TCOAZNGHRBDFSU" kind then
      warn ("**illegal header field in body: " ++ kind ++ ", content: " ++ text)
    else warn ("unhandled field: " ++ kind ++ ", content: " ++ text)
    return []

def fields (measure : Nat) (all : Table String String) (level : Int) : ScoreM Unit := do
  modify fun s => { s with diatonicFrets := false }
  let mut pending : Pending := []
  for (kind, text) in all do
    pending := pending ++ (← field measure level kind text)
  if !pending.isEmpty then
    let e ← addNew measure "attributes" [] level
    for (_, a) in pending.mergeSort fun a b => decide (a.1 ≤ b.1) do
      addElem e a (level + 1)
  if (← get).diatonicFrets then
    let e ← elemWithText "other-direction" "diatonic fretting"
    let _ ← addDirection measure [(e, [])] level 0 "below" false

end Plainsong.Abc.Score
