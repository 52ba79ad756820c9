import Plainsong.Midi.VarLength
/- Frequencies as three bytes: a semitone, and a 16384th of a semitone above it. -/
namespace Plainsong.Midi.Tuning

def resolution : Nat := 16384

def log2 (x : Float) : Except Fault Float :=
  if x.isNaN || 0 < x then .ok (x.log / (2.0 : Float).log) else .error .refused

def pow2 (x : Float) : Except Fault Float :=
  let y := (2.0 : Float).pow x
  if y.isInf && !x.isInf then .error .tooLarge else .ok y

/-- The three bytes of a frequency: the semitone below it, then the distance to
    it in two groups of seven bits, none past 127. The all-ones triple means "no
    change", so the highest frequency stays one step below it. -/
def ofFrequency (frequency : Datum) : Except Fault (Int × Int × Int) := do
  let freq ← frequency.toFloat
  let semitone ← Datum.cut (69 + 12 * (← log2 (freq / 440)))
  let lower := 440 * (← pow2 (((← Datum.wholeFloat semitone) - 69.0) / 12.0))
  let distance ← if freq == lower then pure 0.0
    else if lower == 0 then throw .dividedByZero
    else (log2 (freq / lower)).map (1200 * ·)
  let steps ← match Decimal.roundFloat? (distance / 100 * Float.ofNat resolution) with
    | some n => pure n
    | none => throw (if distance.isNaN then .refused else .tooLarge)
  let high := min (steps.fdiv 128) 127
  let low := min (steps - high * 128) 127
  return (semitone, high, if low = 127 && high = 127 && semitone = 127 then 126 else low)

def toFrequency (values : List Datum) : Except Fault Float := do
  let first ← place values 0
  let semitone ← match ← first.sub (.float 69.0) with
    | .float x => pure x
    | _ => throw .wrongKind
  let base := 440 * (← pow2 (semitone / 12.0))
  let high ← (← place values 1).toWhole
  let low ← (← place values 2).toWhole
  let fraction := (← Datum.wholeFloat (high * 128 + low)) * 100.0 / Float.ofNat resolution
  return base * (← pow2 (fraction / 1200.0))
where
  place (values : List Datum) (i : Nat) : Except Fault Datum :=
    match values[i]? with
    | some v => .ok v
    | none => .error .outOfRange

end Plainsong.Midi.Tuning
