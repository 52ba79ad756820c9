/- Blank space: which characters are blank, and the cuts that go by them
   (trimming, words, lines, tab stops). All functions work on `List Char`
   and have a `String` form beside them. -/
namespace Plainsong.Text

def isBlank (c : Char) : Bool :=
  let n := c.toNat
  (9 ≤ n && n ≤ 13) || (28 ≤ n && n ≤ 32) || n == 0x85 || n == 0xa0 || n == 0x1680
    || (0x2000 ≤ n && n ≤ 0x200a) || n == 0x2028 || n == 0x2029 || n == 0x202f
    || n == 0x205f || n == 0x3000

def isLineEnd (c : Char) : Bool :=
  let n := c.toNat
  (10 ≤ n && n ≤ 13) || (28 ≤ n && n ≤ 30) || n == 0x85 || n == 0x2028 || n == 0x2029

def dropEndWhile (p : Char → Bool) (s : List Char) : List Char :=
  (s.reverse.dropWhile p).reverse

def trimWhile (p : Char → Bool) (s : List Char) : List Char :=
  dropEndWhile p (s.dropWhile p)

def trim (s : String) : String := String.ofList (trimWhile isBlank s.toList)

def trimChars (set : List Char) (s : String) : String :=
  String.ofList (trimWhile set.contains s.toList)

def trimEndChars (set : List Char) (s : String) : String :=
  String.ofList (dropEndWhile set.contains s.toList)

def wordsFrom : List Char → List Char → List (List Char)
  | [], cur => if cur.isEmpty then [] else [cur.reverse]
  | c :: r, cur =>
    if isBlank c then
      if cur.isEmpty then wordsFrom r [] else cur.reverse :: wordsFrom r []
    else wordsFrom r (c :: cur)

def words (s : String) : List String :=
  (wordsFrom s.toList []).map String.ofList

/-- The lines of a text without their ends; a carriage return followed by a
    line feed is one end, and an end at the very end opens no further line. -/
def linesFrom : List Char → List Char → List (List Char)
  | [], cur => if cur.isEmpty then [] else [cur.reverse]
  | '\r' :: '\n' :: r, cur => cur.reverse :: linesFrom r []
  | c :: r, cur =>
    if isLineEnd c then cur.reverse :: linesFrom r [] else linesFrom r (c :: cur)

def lines (s : String) : List String :=
  (linesFrom s.toList []).map String.ofList

def plainLinesFrom : List Char → List Char
  | [] => []
  | '\r' :: '\n' :: r => '\n' :: plainLinesFrom r
  | c :: r => (if c = '\r' then '\n' else c) :: plainLinesFrom r

def plainLines (s : String) : String := String.ofList (plainLinesFrom s.toList)

/-- Replaces each tab by blanks up to the next multiple of eight columns;
    columns are counted anew after a line feed or carriage return. -/
def expandTabsFrom : Nat → List Char → List Char
  | _, [] => []
  | col, c :: r =>
    if c = '\t' then
      let n := 8 - col % 8
      List.replicate n ' ' ++ expandTabsFrom (col + n) r
    else if c = '\n' ∨ c = '\r' then c :: expandTabsFrom 0 r
    else c :: expandTabsFrom (col + 1) r

def expandTabs (s : String) : String :=
  if s.contains '\t' then String.ofList (expandTabsFrom 0 s.toList) else s

end Plainsong.Text
