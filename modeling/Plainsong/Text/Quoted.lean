import Plainsong.Text.Printable
/- The quoted form of a text: single quotes, or double quotes when the text
   holds a single quote and no double one; what has no printed shape is
   written as an escape. -/
namespace Plainsong.Text

def hexDigit (n : Nat) : Char := "0123456789abcdef".toList.getD n '0'

def hexPadded (width n : Nat) : List Char :=
  (List.range width).reverse.map fun i => hexDigit (n / Nat.pow 16 i % 16)

def quoteChar (q c : Char) : List Char :=
  if c = q ∨ c = '\\' then ['\\', c]
  else if c = '\n' then ['\\', 'n']
  else if c = '\r' then ['\\', 'r']
  else if c = '\t' then ['\\', 't']
  else if isPrintable c then [c]
  else if c.toNat < 0x100 then '\\' :: 'x' :: hexPadded 2 c.toNat
  else if c.toNat < 0x10000 then '\\' :: 'u' :: hexPadded 4 c.toNat
  else '\\' :: 'U' :: hexPadded 8 c.toNat

def quoted (s : String) : String :=
  let q := if s.contains '\'' && !s.contains '"' then '"' else '\''
  String.ofList (q :: s.toList.flatMap (quoteChar q) ++ [q])

end Plainsong.Text
