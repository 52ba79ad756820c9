import Plainsong.Xml.Tree
/- Documents as text. -/
namespace Plainsong.Xml

def escapeChar : Char → String
  | '&' => "&amp;"
  | '<' => "&lt;"
  | '>' => "&gt;"
  | c => c.toString

def escapeAttributeChar : Char → String
  | '"' => "&quot;"
  | '\r' => "&#13;"
  | '\n' => "&#10;"
  | '\t' => "&#09;"
  | c => escapeChar c

def escape (s : String) : String := String.join (s.toList.map escapeChar)
def escapeAttribute (s : String) : String := String.join (s.toList.map escapeAttributeChar)

def attributesText (as : List (String × String)) : String :=
  String.join (as.map fun (k, v) => " " ++ k ++ "=\"" ++ escapeAttribute v ++ "\"")

def Tree.printAt (t : Tree) : Nat → String → Nat → String
  | 0, out, _ => out
  | depth + 1, out, id =>
    let e := t.get id
    let text := e.text.getD ""
    let out := out ++ "<" ++ e.tag ++ attributesText e.attributes
    let out :=
      if text.isEmpty && e.children.isEmpty then out ++ " />"
      else
        let out := e.children.foldl (Tree.printAt t depth) (out ++ ">" ++ escape text)
        out ++ "</" ++ e.tag ++ ">"
    out ++ escape (e.tail.getD "")

def Tree.print (t : Tree) (id : Nat) : String := t.printAt t.elements.size "" id

def declaration : String := "<?xml version='1.0' encoding='utf-8'?>"

def doctype : String :=
  "<!DOCTYPE score-partwise PUBLIC \"-//Recordare//DTD MusicXML 3.0 Partwise//EN\" \"http://www.musicxml.org/dtds/partwise.dtd\">"

def Tree.document (t : Tree) (root : Nat) : String :=
  declaration ++ "\n" ++ doctype ++ "\n" ++ t.print root

end Plainsong.Xml
