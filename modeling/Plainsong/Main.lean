import Plainsong.Command.Archive
import Plainsong.Command.Convert
import Plainsong.Command.Engrave
/- The command line. The working directory is read into memory, the command runs
   on it, and what it printed and wrote is passed on. With `--tunes` as the first
   argument tunes are converted, otherwise a chant is engraved. -/
namespace Plainsong.Command

/-- Adds what is in a directory to the disk. -/
partial def load (names : List String) (d : Disk) : IO Disk := do
  let mut d := d
  for entry in ← (System.mkFilePath ("." :: names)).readDir do
    let here := names ++ [entry.fileName]
    if ← entry.path.isDir then
      d ← load here { d with directories := d.directories ++ [here] }
    else
      d := { d with files := d.files.put here (.bytes (← IO.FS.readBinFile entry.path)) }
  return d

def save (before after : Disk) : IO Unit := do
  for names in after.directories do
    unless before.directories.contains names do
      IO.FS.createDir (System.mkFilePath names)
  for (names, content) in after.files do
    let path := System.mkFilePath names
    match content with
    | .archive entries =>
      let bytes := Archive.bytes (entries.map fun (name, text) => .ofTexts name text)
      IO.FS.writeBinFile path ⟨bytes.toArray⟩
    | .bytes b =>
      let same := match before.files.find? names with
        | some old => old.asBytes.toList == b.toList
        | none => false
      unless same do IO.FS.writeBinFile path b

def RunFault.message : RunFault → String
  | .disk f => f.message
  | .chant (.malformed m) => m
  | .chant (.value _) => "the chant holds a value that cannot be used"
  | .chant (.conversion _) | .tune _ => "the tune cannot be converted"
  | .undecodable => "the text is not in UTF-8"
  | .noName => "a directory is given where a file is needed"

end Plainsong.Command

open Plainsong.Command in
def main (args : List String) : IO UInt32 := do
  let disk ← load [] {}
  let input ← if args.contains "-" then (← IO.getStdin).readBinToEnd else pure ⟨#[]⟩
  let act := match args with
    | "--tunes" :: rest => Convert.run "plainsong" rest
    | _ => Engrave.run "plainsong" args
  let (ending, world) := act.run.run { disk, input }
  save disk world.disk
  IO.print world.output
  if let some b := world.binary then (← IO.getStdout).write ⟨b.toArray⟩
  IO.eprint world.errors
  match ending with
  | .ok _ => return 0
  | .error (.status n) => return n.toUInt32
  | .error (.fault f) =>
    IO.eprintln f.message
    return 1
