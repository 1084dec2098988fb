import TiledAutomata.Text.Printable
import TiledAutomata.Text.Utf8

/-!
# Names in XML documents

The characters that a name may start with are letters, ideographs, the underscore and
the colon; digits, combining characters, extenders, the hyphen and the full stop may
follow. The runs are those of the first edition of the standard.
-/

namespace TiledAutomata.Xml

open Text (Bytes)

def starts : List Nat := [
  58, 1, 6, 26, 4, 1, 1, 26, 69, 23, 1, 31, 1, 58, 2, 11, 2, 8, 1, 53, 1, 68, 9, 36, 3, 2, 4, 30,
  56, 89, 18, 7, 196, 1, 1, 3, 1, 1, 1, 20, 1, 44, 1, 7, 3, 1, 1, 1, 1, 1, 1, 1, 1, 18, 13, 12, 1,
  66, 1, 12, 1, 36, 14, 53, 2, 2, 2, 2, 3, 28, 2, 8, 2, 2, 55, 38, 2, 1, 7, 38, 73, 27, 5, 3, 46,
  26, 6, 10, 38, 71, 2, 5, 1, 15, 1, 4, 1, 1, 15, 2, 542, 53, 3, 1, 26, 10, 35, 8, 2, 2, 2, 22, 1,
  7, 1, 1, 3, 4, 34, 2, 1, 3, 14, 2, 19, 6, 4, 2, 2, 22, 1, 7, 1, 2, 1, 2, 1, 2, 31, 4, 1, 1, 19, 3,
  16, 7, 1, 1, 1, 3, 1, 22, 1, 7, 1, 2, 1, 5, 3, 1, 34, 1, 36, 8, 2, 2, 2, 22, 1, 7, 1, 2, 2, 4, 3,
  1, 30, 2, 1, 3, 35, 6, 3, 3, 1, 4, 3, 2, 1, 1, 1, 2, 3, 2, 3, 3, 3, 8, 1, 3, 75, 8, 1, 3, 1, 23,
  1, 10, 1, 5, 38, 2, 35, 8, 1, 3, 1, 23, 1, 10, 1, 5, 36, 1, 1, 2, 35, 8, 1, 3, 1, 23, 1, 16, 38,
  2, 159, 46, 1, 1, 1, 2, 12, 6, 59, 2, 1, 1, 2, 2, 1, 1, 2, 1, 6, 4, 1, 7, 1, 3, 1, 1, 1, 1, 2, 2,
  1, 2, 1, 1, 1, 2, 9, 1, 2, 5, 123, 8, 1, 33, 310, 38, 10, 39, 9, 1, 1, 2, 1, 3, 1, 1, 1, 2, 1, 5,
  41, 1, 1, 1, 1, 1, 11, 1, 1, 1, 1, 1, 3, 2, 3, 1, 5, 3, 1, 1, 1, 1, 1, 1, 1, 1, 3, 2, 3, 2, 1, 1,
  40, 1, 9, 1, 2, 1, 2, 2, 7, 2, 1, 1, 1, 7, 40, 1, 4, 1, 8, 1, 3078, 156, 4, 90, 6, 22, 2, 6, 2,
  38, 2, 6, 2, 8, 1, 1, 1, 1, 1, 1, 1, 31, 2, 53, 1, 7, 1, 1, 3, 3, 1, 7, 3, 4, 2, 6, 4, 13, 5, 3,
  1, 7, 297, 1, 3, 2, 2, 1, 81, 3, 3716, 1, 25, 9, 23, 84, 12, 90, 10, 40, 7379, 20902, 3162, 11172]

def laters : List Nat := [
  45, 2, 1, 10, 125, 1, 536, 2, 46, 70, 26, 2, 37, 1, 251, 4, 266, 17, 1, 23, 1, 3, 1, 1, 1, 2, 1,
  1, 123, 1, 10, 8, 13, 10, 6, 1, 101, 15, 2, 2, 1, 4, 2, 10, 519, 3, 56, 1, 1, 16, 3, 4, 13, 2, 2,
  10, 17, 3, 56, 1, 1, 7, 2, 2, 2, 3, 9, 1, 10, 2, 2, 10, 18, 1, 57, 1, 1, 5, 4, 2, 2, 3, 24, 12,
  15, 3, 56, 1, 1, 8, 1, 3, 1, 3, 24, 10, 17, 3, 56, 1, 1, 6, 3, 2, 2, 3, 8, 2, 14, 10, 18, 2, 58,
  5, 3, 3, 1, 4, 9, 1, 15, 9, 17, 3, 58, 7, 1, 3, 1, 4, 7, 2, 15, 10, 18, 2, 58, 7, 1, 3, 1, 4, 7,
  2, 15, 10, 18, 2, 58, 6, 2, 3, 1, 4, 9, 1, 14, 10, 193, 1, 2, 7, 11, 9, 1, 10, 87, 1, 2, 6, 1, 2,
  9, 1, 1, 6, 2, 10, 62, 2, 6, 10, 11, 1, 1, 1, 1, 1, 4, 2, 49, 20, 1, 6, 4, 6, 1, 1, 1, 21, 3, 7,
  1, 1, 4374, 13, 4, 1, 3875, 1, 36, 6, 1, 5, 99, 2, 2, 2, 93, 3]

def isStart (c : Char) : Bool := Text.inRuns starts c.toNat

def isLater (c : Char) : Bool := isStart c || Text.inRuns laters c.toNat

/-- The bytes that may stand in a name at all; those above ASCII are judged as characters. -/
def isNameByte (b : UInt8) : Bool :=
  0x80 ≤ b || (65 ≤ b && b ≤ 90) || (97 ≤ b && b ≤ 122) || (48 ≤ b && b ≤ 57) ||
    b == 95 || b == 58 || b == 46 || b == 45

def isName (bs : Bytes) : Bool :=
  match Text.decode bs with
  | .ok c :: cs => isStart c && cs.all fun
    | .ok c => isLater c
    | .error _ => false
  | _ => false

/-- A name with its namespace tag. Names are matched by the local part. -/
structure Name where
  tag : String
  part : String
  deriving DecidableEq, Repr

/-- Splits at a single colon that has text on both sides. -/
def Name.ofText? (s : String) : Option Name :=
  let cs := s.toList
  if 1 < cs.count ':' then none
  else
    let before := cs.takeWhile (· ≠ ':')
    let after := (cs.dropWhile (· ≠ ':')).drop 1
    if before.isEmpty || after.isEmpty then some ⟨"", s⟩
    else some ⟨String.ofList before, String.ofList after⟩

/-- The bytes of a name and what follows; a name is never the last thing in a document. -/
def rawName (bs : Bytes) : Option (Bytes × Bytes) :=
  match bs.span isNameByte with
  | ([], _) => none
  | (_, []) => none
  | (n, r) => if isName n then some (n, r) else none

def name (bs : Bytes) : Option (Name × Bytes) := do
  let (n, r) ← rawName bs
  let q ← Name.ofText? (Text.lossy n)
  return (q, r)

end TiledAutomata.Xml
