import Plainsong.Chant.Score
import Plainsong.Command.Disk
import Plainsong.Command.Path
/- A run of a command: it reads and writes files, reads the input, prints, and
   ends with a status or a fault. -/
namespace Plainsong.Command

/-- What a run breaks off at. -/
inductive RunFault where
  | disk (f : DiskFault)
  | chant (f : Chant.Fault)
  | tune (f : Grammar.Fault)
  | undecodable
  /-- a directory where a file has to be named -/
  | noName

/-- How a run ends before its end. -/
inductive Ending where
  | status (n : Nat)
  | fault (f : RunFault)

structure World where
  disk : Disk
  input : ByteArray := ⟨#[]⟩
  output : String := ""
  errors : String := ""
  /-- bytes sent to the output past its text -/
  binary : Option (List UInt8) := none

abbrev Run (α : Type) := ExceptT Ending (StateM World) α

namespace Run

def stop {α : Type} (f : RunFault) : Run α := throw (.fault f)

def exit {α : Type} (n : Nat) : Run α := throw (.status n)

def print (text : String) : Run Unit := modify fun w => { w with output := w.output ++ text }

def printError (text : String) : Run Unit := modify fun w => { w with errors := w.errors ++ text }

def ofDisk {α : Type} : Except DiskFault α → Run α
  | .ok a => return a
  | .error f => stop (.disk f)

def decode (b : ByteArray) : Run String :=
  match String.fromUTF8? b with
  | some s => return s
  | none => stop .undecodable

def readText (path : String) : Run String := do
  let w ← get
  if path = "-" then decode w.input
  else
    let content ← ofDisk (w.disk.read path)
    return Text.plainLines (← decode content.asBytes)

def writeContent (path : String) (c : Content) : Run Unit := do
  let w ← get
  set { w with disk := ← ofDisk (w.disk.write path c) }

def writeText (path text : String) : Run Unit :=
  if path = "-" then print text else writeContent path (.bytes text.toUTF8)

def writeBytes (path : String) (b : List UInt8) : Run Unit :=
  if path = "-" then modify fun w => { w with binary := some b }
  else writeContent path (.bytes ⟨b.toArray⟩)

def isDirectory (path : String) : Run Bool := return (← get).disk.pathIsDirectory path

end Run

end Plainsong.Command
