import TiledAutomata.Xml.Name

/-!
# XML documents as a run of events

Tags and texts in the order of the document. Comments, declarations and instructions
leave no event. The run ends with the document or with the first thing that is
malformed or not supported, and nothing behind that point is looked at.
-/

namespace TiledAutomata.Xml

open Text (Bytes)

inductive Event where
  | start (name : Name) (attrs : List (Name × String))
  | stop (name : Name)
  | text (s : String)

/-- How a run of events ends. -/
inductive Ending where
  | complete
  | malformed
  | unsupported
  deriving DecidableEq, Repr

def isSpace (b : UInt8) : Bool := b == 32 || b == 13 || b == 10 || b == 9

def space (bs : Bytes) : Bytes := bs.dropWhile isSpace

def lt : UInt8 := 60
def gt : UInt8 := 62
def slash : UInt8 := 47
def bang : UInt8 := 33
def ask : UInt8 := 63
def dash : UInt8 := 45
def bracket : UInt8 := 91
def closing : UInt8 := 93
def ampersand : UInt8 := 38
def semicolon : UInt8 := 59
def equals : UInt8 := 61
def quotation : UInt8 := 34
def apostrophe : UInt8 := 39

def isChar (c : Char) : Bool :=
  let n := c.toNat
  n == 9 || n == 10 || n == 13 || (0x20 ≤ n && n ≤ 0xd7ff) || (0xe000 ≤ n && n ≤ 0xfffd) ||
    0x10000 ≤ n

def chars? (bs : Bytes) : Option String :=
  let us := Text.decode bs
  if us.all (fun
    | .ok c => isChar c
    | .error _ => false) then some (Text.lossy bs) else none

def hexDigit? (b : UInt8) : Option Nat :=
  if 48 ≤ b && b ≤ 57 then some (b.toNat - 48)
  else if 97 ≤ b && b ≤ 102 then some (b.toNat - 87)
  else if 65 ≤ b && b ≤ 70 then some (b.toNat - 55)
  else none

def digit? (base : Nat) (b : UInt8) : Option Nat :=
  match hexDigit? b with
  | some d => if d < base then some d else none
  | none => none

/-- A code point out of range is refused; a surrogate is replaced. -/
def codePoint? (base : Nat) (ds : Bytes) : Option Bytes :=
  let n := ds.foldl (fun n b => n * base + (digit? base b).getD 0) 0
  if ds.isEmpty || 0x10ffff < n then none
  else some (Text.bytes (String.singleton
    (if 0xd800 ≤ n && n ≤ 0xdfff then Text.replacement else Char.ofNat n)))

def numberReference (base : Nat) (bs : Bytes) : Option (Bytes × Bytes) :=
  match bs.span fun b => (digit? base b).isSome with
  | (ds, b :: r) => if b == semicolon then (codePoint? base ds).map (·, r) else none
  | (_, []) => none

def entities : List (String × String) :=
  [("lt", "<"), ("gt", ">"), ("amp", "&"), ("apos", "'"), ("quot", "\"")]

def reference (bs : Bytes) : Option (Bytes × Bytes) :=
  match bs with
  | 35 :: 120 :: r => numberReference 16 r
  | 35 :: r => numberReference 10 r
  | _ =>
    match rawName bs with
    | some (n, b :: r) =>
      if b == semicolon then (entities.lookup (Text.lossy n)).map fun s => (Text.bytes s, r)
      else none
    | _ => none

/-- Where a text stands: between tags, in quotes, or in a section of plain characters. -/
inductive Place where
  | content
  | quoted (mark : UInt8)
  | plain
  deriving DecidableEq

/-- A text up to its end. `b0` and `b1` are the two bytes just read. Line ends become line feeds.
The bytes of the text are gathered in reverse. -/
def run (p : Place) : Nat → UInt8 → UInt8 → Bytes → Bytes → Option (Bytes × Bytes)
  | 0, _, _, _, _ => none
  | _ + 1, _, _, acc, [] => if p = .plain then none else some (acc.reverse, [])
  | fuel + 1, b0, b1, acc, b :: r =>
    let quoted := match p with
      | .quoted _ => true
      | _ => false
    if !quoted && b0 == closing && b1 == closing && b == gt then
      if p = .plain then some ((acc.drop 2).reverse, r) else none
    else if b == lt && p ≠ .plain then
      if quoted then none else some (acc.reverse, b :: r)
    else if p = .quoted b then some (acc.reverse, r)
    else if b == ampersand && p ≠ .plain then
      match reference r with
      | none => none
      | some (s, r) => run p fuel 0 0 (s.reverse ++ acc) r
    else
      let acc := if b == 13 then 10 :: acc
        else if b1 == 13 && b == 10 then acc
        else b :: acc
      run p fuel b1 b acc r

def text (p : Place) (bs : Bytes) : Option (String × Bytes) := do
  let (t, r) ← run p (bs.length + 1) 0 0 [] bs
  let s ← chars? t
  return (s, r)

def declared (key : Bytes) : Nat → Bytes → Bytes
  | 0, _ => []
  | _ + 1, [] => []
  | fuel + 1, b :: r =>
    if key.isPrefixOf (b :: r) then
      match (b :: r).drop key.length with
      | [] => []
      | q :: r =>
        if q == quotation || q == apostrophe then
          match r.span (· ≠ q) with
          | (v, _ :: _) => v
          | (_, []) => []
        else declared key fuel r
    else declared key fuel r

def lowerByte (b : UInt8) : UInt8 := if 65 ≤ b && b ≤ 90 then b + 32 else b

def supported (declaration : Bytes) : Bool :=
  let version := declared (Text.ascii "version=") (declaration.length + 1) declaration
  let encoding := declared (Text.ascii "encoding=") (declaration.length + 1) declaration
  (version.isEmpty || version == Text.ascii "1.0") &&
    (encoding.isEmpty || encoding.map lowerByte == Text.ascii "utf-8")

def upTo (mark : Bytes) : Bytes → Option (Bytes × Bytes)
  | [] => none
  | b :: r =>
    if mark.isPrefixOf (b :: r) then some ([], (b :: r).drop mark.length)
    else (upTo mark r).map fun (a, t) => (b :: a, t)

/-- Behind a comment. Two dashes may only end it. -/
def comment (bs : Bytes) : Option Bytes :=
  match upTo (Text.ascii "--") bs with
  | some (_, b :: r) => if b == gt then some r else none
  | _ => none

/-- Behind a declaration in angle brackets; brackets nest, quoted ones and comments do not
count. -/
def declaration : Nat → UInt8 → Nat → Bytes → Option Bytes
  | 0, _, _, _ => none
  | _ + 1, _, _, [] => none
  | fuel + 1, quote, depth, b :: r =>
    if quote == 0 && b == gt && depth == 0 then some r
    else if b == quote then declaration fuel 0 depth r
    else if quote != 0 then declaration fuel quote depth r
    else if b == quotation || b == apostrophe then declaration fuel b depth r
    else if b == gt then declaration fuel 0 (depth - 1) r
    else if b == lt then
      match r with
      | 33 :: 45 :: 45 :: r =>
        match upTo (Text.ascii "-->") r with
        | some (_, r) => declaration fuel 0 depth r
        | none => none
      | 33 :: 45 :: r => declaration fuel 0 (depth + 1) r
      | 33 :: r => declaration fuel 0 (depth + 1) r
      | _ => declaration fuel 0 (depth + 1) r
    else declaration fuel 0 depth r

def attributes : Nat → Bytes → Option (List (Name × String) × Bool × Bytes)
  | 0, _ => none
  | fuel + 1, bs =>
    match space bs with
    | [] => none
    | b :: r =>
      if b == slash then
        match r with
        | c :: r => if c == gt then some ([], true, r) else none
        | [] => none
      else if b == gt then some ([], false, r)
      else do
        let (n, r) ← name (b :: r)
        match space r with
        | e :: r =>
          if e == equals then
            match space r with
            | q :: r =>
              if q == quotation || q == apostrophe then do
                let (v, r) ← text (.quoted q) r
                let (as, closed, r) ← attributes fuel r
                return ((n, v) :: as, closed, r)
              else none
            | [] => none
          else none
        | [] => none

/-- What a tag or another construct in angle brackets amounts to. -/
inductive Markup where
  | events (es : List Event) (rest : Bytes)
  | broken (e : Ending)

def Markup.ofRest : Option Bytes → Markup
  | some r => .events [] r
  | none => .broken .malformed

def endTag (bs : Bytes) : Markup :=
  match name bs with
  | some (n, r) =>
    match space r with
    | b :: r => if b == gt then .events [.stop n] r else .broken .malformed
    | [] => .broken .malformed
  | none => .broken .malformed

def instruction (bs : Bytes) : Markup :=
  match rawName bs with
  | some (n, r) =>
    match upTo (Text.ascii "?>") (space r) with
    | some (data, r) =>
      if n == Text.ascii "xml" && !supported data then .broken .unsupported else .events [] r
    | none => .broken .malformed
  | none => .broken .malformed

def exclamation (bs : Bytes) : Markup :=
  match bs with
  | [] => .broken .malformed
  | b :: r =>
    if b == dash then
      match r with
      | c :: r => if c == dash then .ofRest (comment r) else .broken .malformed
      | [] => .broken .malformed
    else if b == bracket then
      if (Text.ascii "CDATA[").isPrefixOf r then
        match text .plain (r.drop 6) with
        | some (s, r) => .events [.text s] r
        | none => .broken .malformed
      else .broken .malformed
    else .ofRest (declaration (r.length + 1) 0 0 r)

def startTag (bs : Bytes) : Markup :=
  match name bs with
  | some (n, r) =>
    match attributes (r.length + 1) r with
    | some (as, closed, r) =>
      .events (if closed then [.start n as, .stop n] else [.start n as]) r
    | none => .broken .malformed
  | none => .broken .malformed

def markup (bs : Bytes) : Markup :=
  match bs with
  | [] => .broken .malformed
  | b :: r =>
    if b == slash then endTag r
    else if b == ask then instruction r
    else if b == bang then exclamation r
    else startTag (b :: r)

def eventsFrom : Nat → Bytes → List Event × Ending
  | 0, _ => ([], .malformed)
  | _ + 1, [] => ([], .complete)
  | fuel + 1, b :: r =>
    if b == lt then
      match markup r with
      | .events es r =>
        let (more, e) := eventsFrom fuel r
        (es ++ more, e)
      | .broken e => ([], e)
    else
      match text .content (b :: r) with
      | some (s, r) =>
        let (more, e) := eventsFrom fuel r
        (.text s :: more, e)
      | none => ([], .malformed)

def events (bs : Bytes) : List Event × Ending := eventsFrom (bs.length + 1) bs

end TiledAutomata.Xml
