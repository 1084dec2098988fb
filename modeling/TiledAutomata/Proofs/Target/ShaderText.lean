import TiledAutomata.Emit.Kernel
import TiledAutomata.Proofs.Target.Phrase

/-!
# Shader source as terms

The part of the shader language in which expressions and helpers are written. A `<` behind
a name can open a list of types as well as compare, so a first pass over the text finds
the lists: it remembers every such `<` until what follows tells that it opens none. Then
the text is cut into tokens, and these are read by the grammar of the language, in which
most operators may stand beside each other only in brackets.
-/

namespace TiledAutomata.Emit.Shader

open Target

/-! ## Lists of types -/

/-- A run of characters of words, another character, or a blank. -/
inductive Atom where
  | word (cs : List Char)
  | sign (c : Char)
  | gap
  deriving DecidableEq

def isWord (c : Char) : Bool := c.isAlphanum || c == '_'

def isBlank (c : Char) : Bool := c == ' ' || c == '\n' || c == '\t' || c == '\r'

def atoms : List Char → List Atom
  | [] => []
  | c :: cs =>
    if isWord c then
      match atoms cs with
      | .word w :: as => .word (c :: w) :: as
      | as => .word [c] :: as
    else if isBlank c then .gap :: atoms cs
    else .sign c :: atoms cs

def isName (w : List Char) : Bool := w.head?.any fun c => !c.isDigit

/-- How far the search for lists is. A `<` that may open a list is pending, with its place and the
depth of brackets around it. -/
structure Search where
  place : Nat := 0
  depth : Nat := 0
  pending : List (Nat × Nat) := []
  found : List (Nat × Nat) := []
  /-- Whether a name comes right before, blanks apart. -/
  named : Bool := false
  /-- Whether the next character belongs to the mark before. -/
  skips : Bool := false

namespace Search

def settle (s : Search) : List (Nat × Nat) := s.pending.dropWhile fun p => s.depth ≤ p.2

def step (s : Search) (a : Atom) (next : Option Atom) : Search :=
  let joins (c : Char) : Bool := next == some (.sign c)
  let t : Search := { s with place := s.place + 1, named := false, skips := false }
  if s.skips then t
  else
    match a with
    | .gap => { t with named := s.named }
    | .word w => { t with named := isName w }
    | .sign c =>
      if c = '<' then
        if !s.named then t
        else if joins '<' || joins '=' then { t with skips := true }
        else { t with pending := (s.place, s.depth) :: s.pending }
      else if c = '>' then
        match s.pending with
        | (p, d) :: ps =>
          if d = s.depth then { t with pending := ps, found := (p, s.place) :: s.found }
          else { t with skips := joins '=' }
        | [] => { t with skips := joins '=' }
      else if c = '(' ∨ c = '[' then { t with depth := s.depth + 1 }
      else if c = ')' ∨ c = ']' then { t with pending := s.settle, depth := s.depth - 1 }
      else if c = '!' then { t with skips := joins '=' }
      else if c = '=' then
        if joins '=' then { t with skips := true } else { t with depth := 0, pending := [] }
      else if c = ';' ∨ c = '\x7b' ∨ c = ':' then { t with depth := 0, pending := [] }
      else if (c = '&' ∨ c = '|') ∧ joins c then { t with pending := s.settle, skips := true }
      else t

def run (next : Option Atom) (s : Search) : List Atom → Search
  | [] => s
  | a :: as => run next (s.step a (as.head?.or next)) as

end Search

def lists (as : List Atom) : List (Nat × Nat) := (Search.run none {} as).found

/-! ## Tokens -/

inductive Token where
  | word (s : String)
  | number (s : String)
  | mark (s : String)
  /-- Brackets around a list of types. -/
  | opens
  | closes
  deriving DecidableEq

def pairs : List (Char × Char) :=
  [('<', '<'), ('>', '>'), ('<', '='), ('>', '='), ('=', '='), ('!', '='), ('&', '&'), ('|', '|'),
    ('-', '>'), ('+', '+'), ('-', '-'), ('+', '='), ('-', '='), ('*', '='), ('/', '='), ('%', '='),
    ('&', '='), ('|', '='), ('^', '=')]

def tokens (found : List (Nat × Nat)) : Bool → Nat → List Atom → List Token
  | _, _, [] => []
  | true, i, _ :: as => tokens found false (i + 1) as
  | false, i, .gap :: as => tokens found false (i + 1) as
  | false, i, .word w :: as =>
    (if isName w then .word (String.ofList w) else .number (String.ofList w)) ::
      tokens found false (i + 1) as
  | false, i, .sign c :: as =>
    if found.any fun l => l.1 == i then .opens :: tokens found false (i + 1) as
    else if found.any fun l => l.2 == i then .closes :: tokens found false (i + 1) as
    else
      match as.head? with
      | some (.sign d) =>
        if pairs.contains (c, d) && !found.any fun l => l.2 == i + 1 then
          .mark (String.ofList [c, d]) :: tokens found true (i + 1) as
        else .mark (String.ofList [c]) :: tokens found false (i + 1) as
      | _ => .mark (String.ofList [c]) :: tokens found false (i + 1) as

def tokenize (cs : List Char) : List Token := tokens (lists (atoms cs)) false 0 (atoms cs)

/-! ## Expressions -/

def keywords : List String :=
  ["alias", "break", "case", "const", "const_assert", "continue", "continuing", "default",
    "diagnostic", "discard", "else", "enable", "false", "fn", "for", "if", "let", "loop",
    "override", "requires", "return", "struct", "switch", "true", "var", "while"]

abbrev Reader (α : Type) := List Token → Option (α × List Token)

def demand (m : String) : List Token → Option (List Token)
  | .mark s :: ts => if s = m then some ts else none
  | _ => none

section Operators

variable (unary : Reader Term)

/-- Operands behind operators of one kind, which bind to the left. -/
def chain (ops : List String) (operand : Reader Term) : Nat → Term → Reader Term
  | 0, _, _ => none
  | k + 1, x, .mark m :: ts =>
    if ops.contains m then do
      let (y, ts) ← operand ts
      chain ops operand k (.binary m x y) ts
    else some (x, .mark m :: ts)
  | _ + 1, x, ts => some (x, ts)

def products : Nat → Term → Reader Term := chain ["*", "/", "%"] unary

def sums (k : Nat) (x : Term) : Reader Term := fun ts => do
  let (x, ts) ← products unary k x ts
  chain ["+", "-"] (fun ts => do
    let (y, ts) ← unary ts
    products unary k y ts) k x ts

/-- Shifts stand beside no other operator. -/
def shifts (k : Nat) (x : Term) : Reader Term
  | .mark m :: ts =>
    if m = "<<" ∨ m = ">>" then do
      let (y, ts) ← unary ts
      some (.binary m x y, ts)
    else sums unary k x (.mark m :: ts)
  | ts => sums unary k x ts

def comparisons : List String := ["==", "!=", "<", "<=", ">", ">="]

def relation (k : Nat) (x : Term) : Reader Term := fun ts => do
  match ← shifts unary k x ts with
  | (x, .mark m :: ts) =>
    if comparisons.contains m then do
      let (y, ts) ← unary ts
      let (y, ts) ← shifts unary k y ts
      some (.binary m x y, ts)
    else some (x, .mark m :: ts)
  | (x, ts) => some (x, ts)

def joined (k : Nat) (x : Term) : Reader Term := fun ts => do
  let related : Reader Term := fun ts => do
    let (y, ts) ← unary ts
    relation unary k y ts
  match ts with
  | .mark m :: us =>
    if ["&", "|", "^"].contains m then chain [m] unary k x (.mark m :: us)
    else
      match ← relation unary k x (.mark m :: us) with
      | (x, .mark o :: ts) =>
        if ["&&", "||"].contains o then chain [o] related k x (.mark o :: ts)
        else some (x, .mark o :: ts)
      | (x, ts) => some (x, ts)
  | ts => some (x, ts)

def expression (k : Nat) : Reader Term := fun ts => do
  let (x, ts) ← unary ts
  joined unary k x ts

end Operators

section Operands

variable (expression : Reader Term)

def suffixes : Nat → Term → Reader Term
  | 0, _, _ => none
  | k + 1, x, .mark m :: ts =>
    if m = "." then
      match ts with
      | .word f :: ts => suffixes k (.select x f) ts
      | _ => none
    else if m = "[" then do
      let (i, ts) ← expression ts
      suffixes k (.index x i) (← demand "]" ts)
    else some (x, .mark m :: ts)
  | _ + 1, x, ts => some (x, ts)

def arguments : Nat → Reader Terms
  | 0, _ => none
  | k + 1, ts =>
    match demand ")" ts with
    | some ts => some (.nil, ts)
    | none => do
      let (x, ts) ← expression ts
      match demand "," ts with
      | some ts => do
        let (xs, ts) ← arguments k ts
        some (.cons x xs, ts)
      | none => do
        let ts ← demand ")" ts
        some (.cons x .nil, ts)

def typeList : Reader (List String)
  | .opens :: .word t :: .closes :: ts => some ([t], ts)
  | .opens :: _ => none
  | ts => some ([], ts)

def named (k : Nat) (f : String) : Reader Term := fun ts => do
  let (types, ts) ← typeList ts
  match demand "(" ts with
  | some ts => do
    let (xs, ts) ← arguments expression k ts
    suffixes expression k (.call f types xs) ts
  | none => if types = [] then suffixes expression k (.name f) ts else none

def operand (k : Nat) : Reader Term
  | .number s :: ts => suffixes expression k (.literal s) ts
  | .word f :: ts => if keywords.contains f then none else named expression k f ts
  | .mark m :: ts =>
    if m = "(" then do
      let (x, ts) ← expression ts
      suffixes expression k (.group x) (← demand ")" ts)
    else none
  | _ => none

end Operands

def unary : Nat → Reader Term
  | 0, _ => none
  | n + 1, .mark m :: ts =>
    if ["-", "~", "!"].contains m then do
      let (x, ts) ← unary n ts
      some (.unary m x, ts)
    else operand (expression (unary n) n) n (.mark m :: ts)
  | n + 1, ts => operand (expression (unary n) n) n ts

def depthOf (ts : List Token) : Nat := 4 * ts.length + 4

def expression? (text : String) : Option Term := do
  let ts := tokenize text.toList
  let (x, rest) ← expression (unary (depthOf ts)) (depthOf ts) ts
  if rest = [] then some x else none

/-! ## Functions -/

section Functions

variable (expression : Reader Term)

def body : Nat → Reader Body
  | 0, _ => none
  | k + 1, .word w :: ts =>
    if w = "return" then do
      let (x, ts) ← expression ts
      let ts ← demand ";" ts
      return (.leave x, ← demand "\x7d" ts)
    else if w = "let" ∨ w = "var" then
      match ts with
      | .word n :: ts => do
        let (x, ts) ← expression (← demand "=" ts)
        let (rest, ts) ← body k (← demand ";" ts)
        some (.define n x rest, ts)
      | _ => none
    else if w = "if" then do
      let (c, ts) ← expression ts
      let (yes, ts) ← body k (← demand "\x7b" ts)
      let (rest, ts) ← body k ts
      some (.choose c yes rest, ts)
    else do
      let (x, ts) ← expression (← demand "=" ts)
      let (rest, ts) ← body k (← demand ";" ts)
      some (.assign w x rest, ts)
  | _ + 1, ts => do
    return (.done, ← demand "\x7d" ts)

def parameters : Nat → Reader (List (String × String))
  | 0, _ => none
  | k + 1, .word n :: .mark m :: .word t :: ts =>
    if m ≠ ":" then none
    else
      match demand "," ts with
      | some ts => do
        let (ps, ts) ← parameters k ts
        some ((n, t) :: ps, ts)
      | none => do
        return ([(n, t)], ← demand ")" ts)
  | _ + 1, ts => do
    return ([], ← demand ")" ts)

def function (k : Nat) : Reader Function
  | .word w :: .word f :: ts => do
    if w ≠ "fn" then none
    let (ps, ts) ← parameters k (← demand "(" ts)
    match ← demand "->" ts with
    | .word r :: ts => do
      let (b, ts) ← body expression k (← demand "\x7b" ts)
      some (⟨f, ps, r, b⟩, ts)
    | _ => none
  | _ => none

def functions (k : Nat) : Nat → List Token → Option (List Function)
  | 0, _ => none
  | _, [] => some []
  | n + 1, ts => do
    let (f, ts) ← function expression k ts
    return f :: (← functions k n ts)

end Functions

def declared? (ts : List Token) : Option (List Function) :=
  functions (expression (unary (depthOf ts)) (depthOf ts)) (depthOf ts) (depthOf ts) ts

def functions? (text : String) : Option (List Function) := declared? (tokenize text.toList)

/-! ## The words of the dialect -/

open Phrase

def wording : Wording where
  literal v :=
    if v == Int32.minValue then
      group (binary "-" (Phrase.unary "-" (number "2147483647i")) (number "1i"))
    else if v < 0 then group (Phrase.unary "-" (number (toString v.toInt.natAbs ++ "i")))
    else number (v.text ++ "i")
  zero := "0i"
  complement := "~"
  truth := "ca_bool"
  helper h := "ca_" ++ h.map Char.toLower
  cond c t e := call "select" [e, t, c]
  ident x := ⟨[.word "units", .mark "[", .word "k", .mark "]", .mark ".", .word x],
    .select (.index (.name "units") (.name "k")) x⟩
  input p := call "ca_input" [p]
  inputLength := call "i32" [⟨[.word "params", .mark ".", .word "input_size"],
    .select (.name "params") "input_size"⟩]

end TiledAutomata.Emit.Shader
