/- Texts from bytes. -/
namespace Plainsong.Text

/-- The encodings in which texts are kept. -/
inductive Encoding where
  | utf8
  | latin1
deriving DecidableEq, Repr

def Encoding.name : Encoding → String
  | .utf8 => "utf-8"
  | .latin1 => "latin-1"

def ofLatin1 (b : ByteArray) : String := String.ofList (b.toList.map fun x => Char.ofNat x.toNat)

/-- Bytes as a text: in the first encoding if they are valid in it, else in the
    second, in which all bytes are valid. -/
def decode (b : ByteArray) : String × Encoding :=
  match String.fromUTF8? b with
  | some s => (s, .utf8)
  | none => (ofLatin1 b, .latin1)

end Plainsong.Text
