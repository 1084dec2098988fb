import TiledAutomata.Emit.Host.Place
import TiledAutomata.Text.Letter

/-!
# Tokens of the host language

A source text is a row of tokens, with comments between them. A line that ends behind a
name, a literal, a closing bracket or one of a few keywords ends a statement, as if a
semicolon stood there. A text with a character that no token can have has no tokens.

Comments that stand together are a group. A token knows the group right above it, and
the group that ends the line of the token before it.
-/

namespace TiledAutomata.Emit.Host

inductive Kind where
  | name
  | keyword
  | integer
  | real
  | imaginary
  | rune
  | text
  | mark
  /-- The end of a statement, which is written or that of a line. -/
  | separator (written : Bool)
  /-- The end of the source. -/
  | stop
  deriving DecidableEq, Repr

structure Token where
  kind : Kind
  text : String
  place : Place
  stop : Place
  lead : Option Nat := none
  /-- The group of comments that ends the line of the token before. -/
  note : Option Nat := none
  deriving Repr

structure Comment where
  text : String
  place : Place
  deriving DecidableEq, Repr

namespace Comment

def isLine (c : Comment) : Bool := c.text.startsWith "//"

def breaks (c : Comment) : Nat := (c.text.toList.filter (· = '\n')).length

def stop (c : Comment) : Place := c.place + c.text.utf8ByteSize

end Comment

structure Group where
  number : Nat
  comments : List Comment
  deriving Repr

namespace Group

def place (g : Group) : Place := (g.comments.head?.map (·.place)).getD 0

def stop (g : Group) : Place := (g.comments.getLast?.map (·.stop)).getD 0

end Group

inductive Lexeme where
  | token (t : Token)
  | comment (c : Comment)
  deriving Repr

namespace Lexeme

def keywords : List String :=
  ["break", "case", "chan", "const", "continue", "default", "defer", "else", "fallthrough", "for",
    "func", "go", "goto", "if", "import", "interface", "map", "package", "range", "return",
    "select", "struct", "switch", "type", "var"]

/-- Every mark, each before its own beginnings. -/
def marks : List (List Char) :=
  ["<<=", ">>=", "&^=", "...", "&&", "||", "<-", "++", "--", "==", "!=", "<=", ">=", ":=", "+=",
    "-=", "*=", "/=", "%=", "&=", "|=", "^=", "<<", ">>", "&^", "+", "-", "*", "/", "%", "&", "|",
    "^", "<", ">", "=", "!", "~", "(", ")", "[", "]", "\x7b", "\x7d", ",", ".", ":"].map
    String.toList

def closers : List String :=
  ["break", "continue", "fallthrough", "return", "++", "--", ")", "]", "\x7d"]

def startsWord (c : Char) : Bool := c == '_' || Text.isLetter c

def continuesWord (c : Char) : Bool := startsWord c || Text.isDecimalDigit c

def isBlank (c : Char) : Bool := c == ' ' || c == '\t' || c == '\r'

def isHex (c : Char) : Bool :=
  c.isDigit || ('a' ≤ c && c ≤ 'f') || ('A' ≤ c && c ≤ 'F')

def isOctal (c : Char) : Bool := '0' ≤ c && c ≤ '7'

def digits (p : Char → Bool) (cs : List Char) : List Char := cs.takeWhile fun c => p c || c == '_'

/-- Whether every underscore of a numeral stands between two digits. What comes first is the
character before the numeral. -/
def isSpaced (isDigit : Char → Bool) : Char → List Char → Bool
  | b, [] => b != '_'
  | b, c :: cs =>
    (c != '_' || isDigit b) && (b != '_' || isDigit c) && isSpaced isDigit c cs

def exponent (mark : Char) : List Char → Nat × Bool
  | [] => (0, true)
  | c :: cs =>
    if c.toLower != mark then (0, true)
    else
      let sign := match cs with
        | s :: _ => if s == '+' || s == '-' then 1 else 0
        | [] => 0
      let ds := digits Char.isDigit (cs.drop sign)
      (1 + sign + ds.length, ds.any Char.isDigit)

def numeralBase : List Char → Nat × Nat
  | '0' :: c :: _ =>
    match c.toLower with
    | 'x' => (16, 2)
    | 'o' => (8, 2)
    | 'b' => (2, 2)
    | _ => (10, 0)
  | _ => (10, 0)

def fraction (isDigit : Char → Bool) : List Char → List Char
  | '.' :: r => '.' :: digits isDigit r
  | _ => []

def numeral? (cs : List Char) : Option (Kind × Nat) :=
  let (base, head) := numeralBase cs
  let isDigit := if base = 16 then isHex else Char.isDigit
  let whole := digits isDigit (cs.drop head)
  let rest := cs.drop (head + whole.length)
  let fraction := fraction isDigit rest
  let rest := rest.drop fraction.length
  let (power, powered) := exponent (if base = 16 then 'p' else 'e') rest
  let rest := rest.drop power
  let isReal := !fraction.isEmpty || power != 0
  let isImaginary := rest.head? == some 'i'
  let size := head + whole.length + fraction.length + power
  let below (n : Nat) : Bool := whole.all fun c => c == '_' || c.toNat < '0'.toNat + n
  let octal := base = 10 && whole.head? == some '0' && 1 < whole.length
  let fits := if base = 16 then !(isReal && power == 0)
    else if base = 10 then !octal || isReal || isImaginary || below 8
    else (isImaginary || below base) && !isReal
  if (whole ++ fraction).any isDigit && powered && fits
      && !(rest.head?.any fun c => c.toLower == 'e' || c.toLower == 'p')
      && isSpaced isDigit (if head = 0 then '.' else '0') ((cs.take size).drop head) then
    if isImaginary then some (.imaginary, size + 1)
    else some (if isReal then .real else .integer, size)
  else none

def valueOf (base : Nat) (cs : List Char) : Nat :=
  cs.foldl (fun n c =>
    base * n + (if c.isDigit then c.toNat - 48 else c.toLower.toNat - 87)) 0

def escape? (quote : Char) : List Char → Option Nat
  | [] => none
  | c :: cs =>
    let coded (base size limit : Nat) (p : Char → Bool) (ds : List Char) : Bool :=
      let ds := ds.take size
      let n := valueOf base ds
      ds.length = size && ds.all p && n ≤ limit && !(limit != 255 && 0xd800 ≤ n && n ≤ 0xdfff)
    if c == quote || ['a', 'b', 'f', 'n', 'r', 't', 'v', '\\'].contains c then some 1
    else if isOctal c && coded 8 3 255 isOctal (c :: cs) then some 3
    else if c == 'x' && coded 16 2 255 isHex cs then some 3
    else if c == 'u' && coded 16 4 0x10ffff isHex cs then some 5
    else if c == 'U' && coded 16 8 0x10ffff isHex cs then some 9
    else none

def quoted? (quote : Char) : Nat → List Char → Option (Nat × Nat)
  | _, [] => none
  | k + 1, _ :: cs => (quoted? quote k cs).map fun (n, m) => (n + 1, m)
  | 0, c :: cs =>
    if c == quote then some (1, 0)
    else if c == '\n' then none
    else
      match if c == '\\' then escape? quote cs else some 0 with
      | none => none
      | some k => (quoted? quote k cs).map fun (n, m) => (n + 1, m + 1)

def commentSize? : List Char → Option Nat
  | '*' :: '/' :: _ => some 2
  | _ :: cs => (commentSize? cs).map (· + 1)
  | [] => none

/-- What stands at the front of a text, if it is a token or, without a kind, a comment; and its
length. -/
def piece? (cs : List Char) : Option (Option Kind × Nat) :=
  match cs with
  | [] => none
  | c :: r =>
    if startsWord c then
      let w := cs.takeWhile continuesWord
      some (some (if keywords.contains (String.ofList w) then .keyword else .name), w.length)
    else if c.isDigit || c == '.' && (r.head?.any Char.isDigit) then
      (numeral? cs).map fun (k, n) => (some k, n)
    else if c == '\x22' then (quoted? c 0 r).map fun (n, _) => (some .text, n + 1)
    else if c == '\x27' then
      (quoted? c 0 r).bind fun (n, m) => if m = 1 then some (some .rune, n + 1) else none
    else if c == '\x60' then
      if r.contains c then some (some .text, (r.takeWhile (· != c)).length + 2) else none
    else if c == ';' then some (some (.separator true), 1)
    else if c == '/' && r.head? == some '/' then some (none, (cs.takeWhile (· != '\n')).length)
    else if c == '/' && r.head? == some '*' then
      (commentSize? (r.drop 1)).map fun n => (none, n + 2)
    else (marks.find? fun m => m.isPrefixOf cs).map fun m => (some .mark, m.length)

def closes (k : Kind) (text : String) : Bool :=
  match k with
  | .keyword | .mark => closers.contains text
  | .separator _ | .stop => false
  | _ => true

def sizeOf (cs : List Char) : Nat := cs.foldl (fun n c => n + c.utf8Size) 0

/-- A comment without carriage returns. One between a star and a slash stays, since the two would
end the comment. -/
def withoutReturns (isLine : Bool) (cs : List Char) : List Char :=
  let step (kept : List Char × Nat) (x : Char × Option Char) : List Char × Nat :=
    let (c, next) := x
    if c != '\r' || !isLine && 2 < kept.2 && kept.1.head? == some '*' && next == some '/' then
      (c :: kept.1, kept.2 + 1)
    else kept
  if cs.contains '\r' then
    ((cs.zip ((cs.drop 1).map some ++ [none])).foldl step ([], 0)).1.reverse
  else cs

def commentText (cs : List Char) : List Char × Bool :=
  let isLine := cs.take 2 == ['/', '/']
  (if isLine && cs.getLast? == some '\r' then cs.dropLast else cs, isLine)

def lineEnd (place : Place) : Lexeme := .token ⟨.separator false, "\n", place, place, none, none⟩

def kept (k : Kind) (cs : List Char) : String :=
  String.ofList (if k = .text && cs.head? == some '\x60' then cs.filter (· != '\r') else cs)

/-- The lexemes of a text, some characters of which are passed over. A statement is open if the
end of its line would end it. -/
def scan : Nat → Bool → Place → List Char → Array Lexeme → Option (Array Lexeme)
  | _, isOpen, place, [], ls =>
    let ls := if isOpen then ls.push (lineEnd place) else ls
    some (ls.push (.token ⟨.stop, "", place, place, none, none⟩))
  | k + 1, isOpen, place, c :: cs, ls => scan k isOpen (place + c.utf8Size) cs ls
  | 0, isOpen, place, c :: cs, ls =>
    if isBlank c then scan 0 isOpen (place + 1) cs ls
    else if c = '\n' then
      scan 0 false (place + 1) cs (if isOpen then ls.push (lineEnd place) else ls)
    else
      match piece? (c :: cs) with
      | none => none
      | some (some k, n) =>
        let text := (c :: cs).take n
        let t : Token := ⟨k, kept k text, place, place + sizeOf text, none, none⟩
        scan (n - 1) (closes k t.text) (place + c.utf8Size) cs (ls.push (.token t))
      | some (none, n) =>
        let text := (c :: cs).take n
        let ends := isOpen && text.contains '\n'
        let (shown, isLine) := commentText text
        let ls := ls.push (.comment ⟨String.ofList (withoutReturns isLine shown), place⟩)
        let stop := place + sizeOf (text.takeWhile (· != '\n'))
        let ls := if ends then ls.push (lineEnd stop) else ls
        scan (n - 1) (isOpen && !ends) (place + c.utf8Size) cs ls

end Lexeme

def lineStarts (cs : List Char) : Array Place :=
  (cs.foldl (fun (place, starts) c =>
    let place := place + c.utf8Size
    (place, if c = '\n' then starts.push place else starts)) (1, #[1])).2

def trailingNumber (cs : List Char) : Option (List Char × Option Nat) :=
  let digits := (cs.reverse.takeWhile (· != ':')).reverse
  if digits.length = cs.length then none
  else
    let n := Lexeme.valueOf 10 digits
    some (cs.take (cs.length - digits.length - 1),
      if digits.isEmpty || !digits.all Char.isDigit || Nat.pow 2 64 ≤ n then none else some n)

def maxLine : Nat := Nat.pow 2 30

def renumbering (cs : List Char) : Except Unit (Option Nat) := do
  let isGood (n : Nat) : Bool := 0 < n && n ≤ maxLine
  let checked (n : Nat) : Except Unit (Option Nat) := if isGood n then .ok (some n) else .error ()
  match trailingNumber cs with
  | none => .ok none
  | some (_, none) => .error ()
  | some (before, some n) =>
    match trailingNumber before with
    | some (_, some line) => if isGood n then checked line else .error ()
    | _ => checked n

def numbered (t : LineTable) (size : Nat) (ls : Array Lexeme) : Option LineTable :=
  let step (t : LineTable) (l : Lexeme) : Option LineTable :=
    match l with
    | .token _ => some t
    | .comment c =>
      let cs := c.text.toList
      if (cs.drop 2).take 5 == "line ".toList && (!c.isLine || (t.pos c.place).column = 1) then
        let body := cs.drop 7
        let next := if c.isLine then t.lineStart (t.line c.place + 1) else c.stop
        match renumbering (if c.isLine then body else body.take (body.length - 2)) with
        | .error () => none
        | .ok none => some t
        | .ok (some n) =>
          some (if next = 0 || size < next then t
            else { t with renumbered := (next, n) :: t.renumbered })
      else some t
  ls.foldlM step t

/-- The comments of the first group, each of which starts at most a number of lines below the end
of the one before, the line on which they end, and the others. -/
def splitGroup (t : LineTable) (gap : Nat) : Nat → List Comment → List Comment × Nat × List Comment
  | line, [] => ([], line, [])
  | line, c :: cs =>
    if t.saidLine c.place ≤ line + gap then
      let (g, last, rest) := splitGroup t gap (t.saidLine c.place + c.breaks) cs
      (c :: g, last, rest)
    else ([], line, c :: cs)

def splitGroups (t : LineTable) : Nat → List Comment → List (List Comment) × Nat
  | 0, _ => ([], 0)
  | _, [] => ([], 0)
  | n + 1, c :: cs =>
    let (g, last, rest) := splitGroup t 1 (t.saidLine c.place) (c :: cs)
    if rest.isEmpty then ([g], last)
    else
      let (gs, last) := splitGroups t n rest
      (g :: gs, last)

structure Gathered where
  tokens : Array Token := #[]
  groups : Array Group := #[]
  /-- The comments behind the last token, the last first. -/
  open_ : List Comment := []
  place : Place := 0

namespace Gathered

def addGroup (g : Gathered) (cs : List Comment) : Gathered :=
  { g with groups := g.groups.push ⟨g.groups.size, cs⟩ }

def addToken (t : LineTable) (g : Gathered) (x : Token) : Gathered :=
  match g.open_.reverse with
  | [] => { g with tokens := g.tokens.push x, place := x.place }
  | c :: cs =>
    let line := t.saidLine c.place
    let (first, last, rest) := if line = t.saidLine g.place then splitGroup t 0 line (c :: cs)
      else ([], 0, c :: cs)
    let ends : Bool := match rest, x.kind with
      | d :: _, _ => t.saidLine d.place != last
      | [], .separator _ | [], .stop => true
      | [], _ => t.saidLine x.place != last
    let note := if first.isEmpty || !ends then none else some g.groups.size
    let g := if first.isEmpty then g else g.addGroup first
    let (gs, last) := splitGroups t rest.length rest
    let g := gs.foldl addGroup g
    let lead := if !gs.isEmpty && last + 1 = t.saidLine x.place then some (g.groups.size - 1)
      else none
    { g with tokens := g.tokens.push { x with lead, note }, open_ := [], place := x.place }

def add (t : LineTable) (g : Gathered) : Lexeme → Gathered
  | .comment c => { g with open_ := c :: g.open_ }
  | .token x => g.addToken t x

end Gathered

structure Source where
  tokens : List Token
  groups : List Group
  lines : LineTable

/-- The tokens of a text. No source has the characters 0 and U+FEFF. -/
def Source.ofText (text : String) : Option Source := do
  let cs := text.toList
  if cs.any fun c => c.toNat = 0 || c.toNat = 0xfeff then none
  else
    let ls ← Lexeme.scan 0 false 1 cs #[]
    let lines ← numbered { starts := lineStarts cs } text.utf8ByteSize ls
    let g := ls.foldl (Gathered.add lines) {}
    return ⟨g.tokens.toList, g.groups.toList, lines⟩

end TiledAutomata.Emit.Host
