/- Parts of texts, counted in characters. -/
namespace Plainsong.Text

def first (n : Nat) (s : String) : String := String.ofList (s.toList.take n)

def behind (n : Nat) (s : String) : String := String.ofList (s.toList.drop n)

def exceptLast (n : Nat) (s : String) : String := String.ofList (s.toList.take (s.toList.length - n))

def inside (s : String) : String := String.ofList (s.toList.drop 1).dropLast

def isPartOf (part : List Char) : List Char → Bool
  | [] => part.isEmpty
  | c :: rest => part.isPrefixOf (c :: rest) || isPartOf part rest

def has (s part : String) : Bool := isPartOf part.toList s.toList

def beforeFrom? (part : List Char) : List Char → Option (List Char)
  | [] => if part.isEmpty then some [] else none
  | c :: rest => if part.isPrefixOf (c :: rest) then some [] else (beforeFrom? part rest).map (c :: ·)

/-- What stands before the first place of a part. -/
def before? (part s : String) : Option String := (beforeFrom? part.toList s.toList).map String.ofList

/-- Puts `new` in the place of `old` wherever it stands in a list of characters, the
    first characters of which may belong to what was replaced before them. -/
def replaceFrom (old new : List Char) : Nat → List Char → List Char
  | _, [] => []
  | skipped + 1, _ :: rest => replaceFrom old new skipped rest
  | 0, c :: rest =>
    if old.isPrefixOf (c :: rest) then new ++ replaceFrom old new (old.length - 1) rest
    else c :: replaceFrom old new 0 rest

def replace (old new s : String) : String := String.ofList (replaceFrom old.toList new.toList 0 s.toList)

def times (n : Nat) (s : String) : String := String.join (List.replicate n s)

def blanks (n : Nat) : String := String.ofList (List.replicate n ' ')

end Plainsong.Text
