import Plainsong.Abc.Node
/- Lines of lyrics dealt out to the notes above them. -/
namespace Plainsong.Abc

def filler : Node := { name := "leeg", leaves := [.text "*"] }

def Node.takesSyllable (n : Node) : Bool := n.name = "note" && !n.has "chord" && !n.isGrace

def Node.unescaped (n : Node) : Node :=
  match n.leaves with
  | .text s :: rest => { n with leaves := .text (s.replace "%5d" "]") :: rest }
  | _ => n

def Node.sing (n syllable : Node) : Node := { n with items := n.items ++ [.inl syllable] }

/-- Deals one line out. A bar mark is given to all notes up to the next bar line,
    which is behind it then. -/
def dealLine : List Node → List Node → List Node
  | [], _ => []
  | n :: rest, line =>
    if n.takesSyllable then
      match line with
      | [] => n.sing filler.unescaped :: dealLine rest []
      | s :: more => n.sing s.unescaped :: dealLine rest (if s.name = "sbar" then line else more)
    else if n.name = "rbar" then
      match line with
      | s :: more => n :: dealLine rest (if s.name = "sbar" then more else line)
      | [] => n :: dealLine rest []
    else n :: dealLine rest line

def dealLyrics (music : List Node) (lines : List (List Node)) : List Node := lines.foldl dealLine music

end Plainsong.Abc
