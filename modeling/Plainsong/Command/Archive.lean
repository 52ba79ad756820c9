/- Archives of texts. Every entry is stored as it is, behind a header of its own;
   a directory of all entries closes the archive. -/
namespace Plainsong.Command.Archive

def number : Nat → Nat → List UInt8
  | 0, _ => []
  | width + 1, n => UInt8.ofNat (n % 256) :: number width (n / 256)

def shift (c : UInt32) : UInt32 := if c &&& 1 = 1 then (c >>> 1) ^^^ 0xEDB88320 else c >>> 1

def absorb (c : UInt32) (b : UInt8) : UInt32 := Nat.repeat shift 8 (c ^^^ b.toUInt32)

def checksum (bytes : List UInt8) : UInt32 := bytes.foldl absorb 0xFFFFFFFF ^^^ 0xFFFFFFFF

/-- A file in an archive. -/
structure Entry where
  name : List UInt8
  content : List UInt8

def Entry.ofTexts (name text : String) : Entry := ⟨name.toUTF8.toList, text.toUTF8.toList⟩

/-- What is said of an entry before it and in the directory: version, flags for
    names in UTF-8, no compression, the first day that can be given, check sum,
    sizes. -/
def Entry.description (e : Entry) : List UInt8 :=
  number 2 20 ++ number 2 0x800 ++ number 2 0 ++ number 2 0 ++ number 2 0x21
    ++ number 4 (checksum e.content).toNat ++ number 4 e.content.length ++ number 4 e.content.length
    ++ number 2 e.name.length ++ number 2 0

def Entry.record (e : Entry) : List UInt8 := number 4 0x04034B50 ++ e.description ++ e.name ++ e.content

def Entry.listing (e : Entry) (place : Nat) : List UInt8 :=
  number 4 0x02014B50 ++ number 2 20 ++ e.description ++ number 2 0 ++ number 2 0 ++ number 2 0
    ++ number 4 0 ++ number 4 place ++ e.name

def listings : List Entry → Nat → List UInt8
  | [], _ => []
  | e :: rest, place => e.listing place ++ listings rest (place + e.record.length)

def bytes (entries : List Entry) : List UInt8 :=
  let records := entries.flatMap (·.record)
  let directory := listings entries 0
  records ++ directory ++ number 4 0x06054B50 ++ number 2 0 ++ number 2 0 ++ number 2 entries.length
    ++ number 2 entries.length ++ number 4 directory.length ++ number 4 records.length ++ number 2 0

end Plainsong.Command.Archive
