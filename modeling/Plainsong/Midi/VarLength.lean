import Plainsong.Datum
/- Variable-length quantities: seven bits a byte, the highest first, and the top
   bit set in every byte but the last. -/
namespace Plainsong.Midi

/-- Why a call on a file fails: a value that does not do, a track that is not
    there, a note that is ended without having begun. -/
abbrev Fault := Datum.Fault

namespace VarLength

def encodeOnto (n : Nat) (rest : List UInt8) : List UInt8 :=
  if n = 0 then rest else encodeOnto (n / 128) (UInt8.ofNat (n % 128 + 128) :: rest)

def encode (n : Nat) : List UInt8 := encodeOnto (n / 128) [UInt8.ofNat (n % 128)]

def encodeInt (n : Int) : List UInt8 := if n < 0 then [] else encode n.toNat

/-- The form of a value: a number below zero has no bytes, and only whole
    numbers and the zero have bits. -/
def encodeDatum (d : Datum) : Except Fault (List UInt8) :=
  match d with
  | .float x => if x == 0 then .ok [0] else if 0 < x then .error .wrongKind else .ok []
  | d =>
    match d.whole? with
    | some n => .ok (encodeInt n)
    | none => .error .wrongKind

def read? : List UInt8 → Nat → Nat → Option (Nat × Nat)
  | [], _, _ => none
  | b :: rest, value, count =>
    let value := value * 128 + b.toNat % 128
    if b.toNat < 128 then some (value, count + 1) else read? rest value (count + 1)

/-- Reads the quantity that starts at an offset of a buffer. An offset below zero
    counts from the end, and behind the end the reading goes on at the start. -/
def readAt? (offset : Int) (buffer : List UInt8) : Option (Nat × Nat) :=
  if offset < 0 then
    if (buffer.length : Int) < -offset then none
    else read? (buffer.drop (buffer.length - offset.natAbs) ++ buffer) 0 0
  else read? (buffer.drop offset.toNat) 0 0

end VarLength

end Plainsong.Midi
