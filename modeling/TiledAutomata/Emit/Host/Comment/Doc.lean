import TiledAutomata.Emit.Host.Token
import TiledAutomata.Text.Blank
import TiledAutomata.Text.Columns
import TiledAutomata.Text.Lower

/-!
# Documentation

A comment right above a declaration documents it. Its text is made of paragraphs,
headings, lists, code and definitions of links; code and lists are indented. Each has one
layout, and the definitions of links come last.
-/

namespace TiledAutomata.Emit.Host.Doc

abbrev Line := List Char

def isGap (c : Char) : Bool := c == ' ' || c == '\t'

def isIndented (l : Line) : Bool := l.head?.any isGap

def trimLeft (l : Line) : Line := l.dropWhile Text.isWhite

def trimRight (l : Line) : Line := (l.reverse.dropWhile Text.isWhite).reverse

def trim (l : Line) : Line := trimRight (trimLeft l)

def isBlank (l : Line) : Bool := l.all Text.isWhite

def commonFront : Line → Line → Line
  | a :: as, b :: bs => if a = b then a :: commonFront as bs else []
  | _, _ => []

def strip {α : Type} (p : α → Bool) (xs : List α) : List α :=
  ((xs.dropWhile p).reverse.dropWhile p).reverse

def unindent (ls : List Line) : List Line :=
  match strip isBlank ls with
  | [] => []
  | l :: ls =>
    let margin := (ls.filter fun l => !isBlank l).foldl
      (fun m l => commonFront m (l.takeWhile isGap)) (l.takeWhile isGap)
    strip List.isEmpty ((l :: ls).map fun l =>
      let l := if margin.isPrefixOf l then l.drop margin.length else l
      if isBlank l then [] else l)

def marker? (l : Line) : Option (Option Line × Line) :=
  let found : Option (Option Line × Line) := match trim l with
    | [] => none
    | c :: cs =>
      if c == '•' || c == '*' || c == '+' || c == '-' then some (none, cs)
      else
        let digits := (c :: cs).takeWhile Char.isDigit
        match (c :: cs).drop digits.length with
        | d :: rest =>
          if !digits.isEmpty && (d == '.' || d == ')') then some (some digits, rest) else none
        | [] => none
  found.filter fun (_, rest) => isIndented rest && !isBlank rest

def isItem (l : Line) : Bool := (marker? l).isSome

def isHeading : Line → Bool
  | '#' :: c :: cs => isGap c && !isBlank cs
  | _ => false

def noHeading : List Char := ";:!?+*/=[]\x7b\x7d_^°&§~%#@<\">\\".toList

def allFollowed (c : Char) (good : Line → Bool) : Line → Bool
  | [] => true
  | d :: ds => (d != c || good ds) && allFollowed c good ds

/-- Whether a line between empty lines reads like a heading: it starts with a capital letter and
has no marks. -/
def isTitle (l : Line) : Bool :=
  let l := trim l
  (l.head?.any fun c => Text.isLetter c && Text.lower c != c) &&
    (l.getLast?.any fun c => Text.isLetter c || Text.isDecimalDigit c) &&
    !(l.any noHeading.contains) &&
    allFollowed '\x27' (fun r => r = ['s'] || ['s', ' '].isPrefixOf r) l &&
    allFollowed '.' (fun r => !r.isEmpty && r.head? != some ' ') l

inductive Span where
  | paragraph (ls : List Line)
  | heading (text : Line)
  | code (ls : List Line)
  /-- A list, and whether an empty line comes before it. -/
  | list (isApart : Bool) (ls : List Line)

/-- Whether a line goes on with indented lines: it opens a block or ends in a backslash. -/
def opensCode (l : Line) : Bool :=
  match l.getLast? with
  | some c => c == '\x7b' || c == '\\'
  | none => false

def codeHead : List Line → List Line
  | [] => []
  | l :: before => if opensCode l then l :: codeHead before else []

/-- The lines of a list without indentation that end with the given ones, the last first: from
the last line that starts an item on back, as long as lines start items. -/
def listHead : List Line → List Line
  | [] => []
  | l :: before => if isItem l then l :: listHead before else []

def takeIndented (isMore : Line → Bool) : Bool → List Line → List Line × List Line
  | _, [] => ([], [])
  | afterBlank, l :: ls =>
    if l.isEmpty || isIndented l || (!afterBlank && isMore l) then
      let (xs, rest) := takeIndented isMore l.isEmpty ls
      (l :: xs, rest)
    else ([], l :: ls)

/-- Lines without indentation, the last first, and the lines behind them. A line alone between
empty lines may be a heading. -/
def textSpans (isApart : Bool) (ls : List Line) (rest : List Line) : List Span :=
  match ls.reverse with
  | [] => []
  | [l] =>
    let isAlone := rest.head?.all List.isEmpty
    let below := match rest with
      | [] :: m :: _ => !isIndented m
      | _ => false
    if isAlone && isHeading l then [.heading (trim (l.drop 1))]
    else if isApart && below && isTitle l then [.heading (trim l)]
    else [.paragraph [l]]
  | ls => [.paragraph ls]

def spans : Nat → Bool → List Line → List Line → List Span
  | 0, _, _, _ => []
  | _, isApart, text, [] => textSpans isApart text []
  | n + 1, isApart, text, l :: ls =>
    if l.isEmpty then textSpans isApart text (l :: ls) ++ spans n true [] ls
    else if !isIndented l then spans n isApart (l :: text) ls
    else
      let items := listHead text
      let isList := !items.isEmpty || isItem l
      let head := if isList then items else codeHead text
      let isMore : Line → Bool := if !items.isEmpty then isItem
        else if isList then fun _ => false
        else fun l => l.head? == some '\x7d'
      let (block, rest) := takeIndented isMore false (l :: ls)
      let block := head.reverse ++ block
      let trailing := (block.reverse.takeWhile List.isEmpty).length
      let body := block.take (block.length - trailing)
      let before := text.drop head.length
      let span : Span := if isList then .list (before.isEmpty && isApart) body else .code body
      textSpans isApart before (l :: ls) ++ span :: spans n (trailing != 0) [] rest

def link? (l : Line) : Option (Line × Line) :=
  let rec close : Line → Option (Line × Line)
    | ']' :: ':' :: rest => some ([], rest)
    | c :: cs => (close cs).map fun (t, r) => (c :: t, r)
    | [] => none
  match l with
  | '[' :: cs =>
    match close cs with
    | some (text, c :: d :: rest) =>
      let url := trim (d :: rest)
      let scheme := url.takeWhile fun c => c.isLower
      if isGap c && ["file", "ftp", "gopher", "http", "https", "mailto", "nntp"].contains
          (String.ofList scheme) && "://".toList.isPrefixOf (url.drop scheme.length)
        then some (text, url) else none
    | _ => none
  | _ => none

def quotes : Nat → Line → Line
  | _, [] => []
  | k + 1, c :: cs => c :: quotes k cs
  | 0, '\x60' :: '\x60' :: '\x60' :: cs =>
    '\x60' :: quotes (2 + (cs.takeWhile (· == '\x60')).length) ('\x60' :: '\x60' :: cs)
  | 0, '\x60' :: '\x60' :: cs => '“' :: quotes 0 cs
  | 0, '\x27' :: '\x27' :: cs => '”' :: quotes 0 cs
  | 0, c :: cs => c :: quotes 0 cs

def bracketed : Option Line → Line → List Line
  | _, [] => []
  | _, '[' :: cs => bracketed (some []) cs
  | some t, ']' :: cs => t.reverse :: bracketed none cs
  | t, c :: cs =>
    bracketed (t.map fun t => (if c == '\n' || c == '\t' then ' ' else c) :: t) cs

structure Item where
  number : Option Line
  paragraphs : List (List Line) := []

structure Items where
  items : List Item := []
  /-- The lines of a paragraph that is not at its end, the last first. -/
  text : List Line := []
  isLoose : Bool := false

namespace Items

def flush (x : Items) : Items :=
  if x.text.isEmpty then x
  else match x.items with
    | i :: is =>
      let paragraphs := i.paragraphs ++ [x.text.reverse]
      { x with items := { i with paragraphs } :: is, text := [] }
    | [] => { x with text := [] }

def add (numbered : Bool) (x : Items) (l : Line) : Items :=
  let (x, l) := match marker? l with
    | some (n, rest) =>
      if n.isSome == numbered then
        let x := x.flush
        ({ x with items := ⟨n, []⟩ :: x.items }, rest)
      else (x, l)
    | none => (x, l)
  let l := trim l
  if l.isEmpty then { x.flush with isLoose := true } else { x with text := l :: x.text }

end Items

def itemsOf (ls : List Line) : Items :=
  let numbered := ((ls.head?.bind marker?).bind (·.1)).isSome
  let x := (ls.foldl (Items.add numbered) {}).flush
  { x with items := x.items.reverse }

def joined (indent : Line) (ls : List Line) : Line :=
  ("\n".toList ++ indent).intercalate ls

/-- A part of a documentation: its text, whether it needs an empty line before it, and what it
says in brackets. -/
structure Part where
  text : Line
  isApart : Bool := true
  mentions : List Line := []

def paragraph (indent : Line) (ls : List Line) : Line × List Line :=
  (quotes 0 (joined indent ls), bracketed none (joined [] ls))

def partOf : Span → Part
  | .heading t => { text := '#' :: ' ' :: t ++ ['\n'] }
  | .paragraph ls =>
    let (text, mentions) := paragraph [] ls
    { text := text ++ ['\n'], mentions }
  | .code ls =>
    { text := (unindent ls).flatMap fun l => (if l.isEmpty then l else '\t' :: l) ++ ['\n'] }
  | .list isApart ls =>
    let x := itemsOf ls
    let blanks := "    ".toList
    let isLoose := x.isLoose || x.items.any fun i => i.paragraphs.length != 1
    let item (i : Item) : Line × List Line :=
      let ps := i.paragraphs.map (paragraph blanks)
      (' ' :: (match i.number with
        | some n => n ++ ". ".toList
        | none => " - ".toList) ++
        ("\n".toList ++ blanks).intercalate (ps.map fun p => p.1 ++ ['\n']), ps.flatMap (·.2))
    let is := x.items.map item
    { text := (if isLoose then ['\n'] else []).intercalate (is.map (·.1))
      isApart := isApart || isLoose
      mentions := is.flatMap (·.2) }

def linksOf? : Span → Option (List (Line × Line))
  | .paragraph ls => ls.mapM link?
  | _ => none

def layOut (text : Line) : Line :=
  let ls := unindent (Text.Columns.split ['\n'] text)
  let found := spans (ls.length + 1) false [] ls
  let links := found.flatMap fun s => (linksOf? s).getD []
  let parts := (found.filter fun s => (linksOf? s).isNone).map partOf
  let body := parts.zipIdx.flatMap fun (p, i) =>
    (if 0 < i && p.isApart then ['\n'] else []) ++ p.text
  let isUsed (l : Line × Line) : Bool :=
    parts.any (fun p => p.mentions.contains l.1) &&
      (links.find? fun m => m.1 == l.1).any fun m => m.2 == l.2
  let block (ls : List (Line × Line)) : Line :=
    if ls.isEmpty then []
    else '\n' :: ls.flatMap fun (t, u) => '[' :: t ++ "]: ".toList ++ u ++ ['\n']
  body ++ block (links.filter isUsed) ++ block (links.filter fun l => !isUsed l)

def isDirective (cs : Line) : Bool :=
  let isWord (c : Char) : Bool := c.isLower || c.isDigit
  let word := cs.takeWhile (· != ':')
  ["line ", "extern ", "export "].any (fun s => s.toList.isPrefixOf cs) ||
    (!word.isEmpty && word.all isWord &&
      match cs.drop word.length with
      | _ :: c :: _ => isWord c
      | _ => false)

def isStarred (cs : Line) : Bool :=
  ((Text.Columns.split ['\n'] cs).drop 1).all fun l => (l.dropWhile isGap).head? == some '*'

def withText (c : Comment) (cs : Line) : Comment := { c with text := String.ofList cs }

def layOutLines (first : Comment) (cs : List Comment) : List Comment :=
  let bodies := cs.map fun c => c.text.toList.drop 2
  let (directives, said) := bodies.partition isDirective
  let text := said.flatMap fun l => (if l.head? == some ' ' then l.drop 1 else l) ++ ['\n']
  if text.isEmpty then cs
  else
    let shown (l : Line) : Comment := withText first ("//".toList ++
      (if l.isEmpty || l.head? == some '\t' then l else ' ' :: l))
    let out := ((Text.Columns.split ['\n'] (layOut text)).dropLast).map shown
    out ++ if directives.isEmpty then []
      else withText first "//".toList :: directives.map fun l => withText first ('/' :: '/' :: l)

def formatted (cs : List Comment) : List Comment :=
  match cs with
  | [] => []
  | [c] =>
    let text := c.text.toList
    if c.isLine then layOutLines c cs
    else if !text.contains '\n' || isStarred text then cs
    else
      let body := (text.drop 2).take (text.length - 4)
      if body.isEmpty then cs
      else [withText c ("/*\n".toList ++ layOut body ++ "*/".toList)]
  | c :: _ => if cs.all (·.isLine) then layOutLines c cs else cs

end TiledAutomata.Emit.Host.Doc
