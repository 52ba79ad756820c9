import Plainsong.Abc.Tunes
import Plainsong.Command.Disk
import Plainsong.Text.Encoding
/- Tunes in files, and files that are included in them. -/
namespace Plainsong.Abc

open Command (Disk)

def inputName : String := "-.abc"

namespace Converter

def decode (c : Converter) (b : ByteArray) : String × Converter :=
  let (s, e) := Text.decode b
  (s, c.say ("decoded from " ++ e.name) true)

def readFile (c : Converter) (disk : Disk) (input : ByteArray) (path label : String) :
    Option String × Converter :=
  if path = inputName then
    let (s, c) := c.decode input
    (some s, c)
  else match disk.read path with
    | .ok content =>
      let (s, c) := c.decode content.asBytes
      (some s, c)
    | .error f => (none, c.say (label ++ f.message ++ " " ++ path) true)

def includeFiles (disk : Disk) (input : ByteArray) : List String → Converter → List String × Converter
  | [], c => ([], c)
  | line :: rest, c =>
    if line.startsWith "%%abc-include" || line.startsWith "I:abc-include" then
      let (text, c) := c.readFile disk input (Text.trim (Text.behind 13 line)) "include error: "
      let (lines, c) := includeFiles disk input rest c
      (match text with
        | some s => s :: lines
        | none => lines, c)
    else
      let (lines, c) := includeFiles disk input rest c
      (line :: lines, c)

def scores (c : Converter) (disk : Disk) (input : ByteArray) (o : Score.Options) (skip count : Int)
    (text : String) : List Sheetmusic × Converter :=
  let (lines, c) := includeFiles disk input (Text.lines text) c
  c.convertText o skip count ("\n".intercalate lines)

end Converter

end Plainsong.Abc
