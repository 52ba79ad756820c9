import Plainsong.Text.Accent
import Plainsong.Text.Slice
/- Texts without accents, and the search of a text for parts that should not be
   in it. -/
namespace Plainsong.Chant

def plainLetter : Char → String
  | '℣' => "V"
  | '℟' => "R"
  | 'æ' => "ae"
  | 'œ' => "oe"
  | c => String.singleton c

def plain (s : String) : String := String.join ((Text.stripMarks s).toList.map plainLetter)

def alarms (parts : List String) (text : String) : List String := parts.filter (Text.has text)

def alarmText (parts : List String) (text : String) : String :=
  String.join ((alarms parts text).map fun a => "!!! " ++ a ++ " !!!")

end Plainsong.Chant
