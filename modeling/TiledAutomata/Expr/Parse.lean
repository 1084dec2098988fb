import TiledAutomata.Expr.Basic
import TiledAutomata.Expr.Token
import TiledAutomata.Text.Numeral

/-!
# Reading expressions and assignments

A reader takes one token at a time. What is still open on its left, operators without
their right operand, brackets, conditionals, stands on a stack; an operator closes
everything on the stack that binds at least as tightly.
-/

namespace TiledAutomata

open Text (Bytes)

namespace Reader

/-- A construct whose right part is still to come. -/
inductive Open where
  | unary (op : UnaryOp)
  | binary (x : Expr) (op : BinaryOp)
  | group
  | index
  | yes (test : Expr)
  | no (test yes : Expr)
  deriving DecidableEq, Repr

/-- What the next token continues: nothing yet, the name of the input, or a finished operand. -/
inductive Mode where
  | operand
  | bracket
  | value (e : Expr)
  deriving DecidableEq, Repr

structure State where
  mode : Mode
  stack : List Open
  deriving DecidableEq, Repr

def State.start : State := ⟨.operand, []⟩

/-- The effect of a token: it is taken, it is the first one behind a whole expression, or it is
at fault. -/
inductive Step where
  | take (s : State)
  | done (e : Expr)
  | fail (f : SyntaxFault)
  deriving DecidableEq, Repr

def wanted (w : Wanted) (t : Token) : SyntaxFault :=
  if t.kind = .eof then .wantedAtEnd w else .wanted w t.text

/-- Closes the operators that bind at least at a level. -/
def reduce (level : Nat) : Expr → List Open → Expr × List Open
  | e, .unary o :: s => reduce level (.unary o e) s
  | e, .binary x o :: s =>
    if level ≤ o.level then reduce level (.binary o x e) s else (e, .binary x o :: s)
  | e, s => (e, s)

/-- Closes operators and finished conditionals up to the innermost bracket or conditional that
waits for a token, and offers it the token. -/
def close (t : Token) : Expr → List Open → Step
  | e, [] => .done e
  | e, .unary o :: s => close t (.unary o e) s
  | e, .binary x o :: s => close t (.binary o x e) s
  | e, .no c y :: s => close t (.cond c y e) s
  | e, .yes c :: s =>
    if t.kind = .colon then .take ⟨.operand, .no c e :: s⟩ else .fail (wanted .colon t)
  | e, .group :: s =>
    if t.kind = .rparen then .take ⟨.value e, s⟩ else .fail (wanted .closeParen t)
  | e, .index :: s =>
    if t.kind = .rbracket then .take ⟨.value (.input e), s⟩ else .fail (wanted .closeBracket t)

def number (t : Token) (s : List Open) : Step :=
  match Text.Numeral.word32 t.text with
  | .ok n => .take ⟨.value (.number (UInt32.ofNat n).toInt32), s⟩
  | .error _ => .fail (.badNumber t.text)

def name (t : Token) (s : List Open) : Step :=
  if t.text = Expr.inputLengthName then .take ⟨.value .inputLength, s⟩
  else if t.text = Expr.inputName then .take ⟨.bracket, s⟩
  else .take ⟨.value (.ident t.text), s⟩

def operand (t : Token) (s : List Open) : Step :=
  match t.kind with
  | .number => number t s
  | .ident => name t s
  | .lparen => .take ⟨.operand, .group :: s⟩
  | .op =>
    match UnaryOp.ofText? t.text with
    | some o => .take ⟨.operand, .unary o :: s⟩
    | none => .fail (.unexpected t.text)
  | .eof => .fail .unexpectedEnd
  | _ => .fail (.unexpected t.text)

def value (e : Expr) (t : Token) (s : List Open) : Step :=
  match t.kind with
  | .op =>
    match BinaryOp.ofText? t.text with
    | some o =>
      let r := reduce o.level e s
      .take ⟨.operand, .binary r.1 o :: r.2⟩
    | none => close t e s
  | .question =>
    let r := reduce 0 e s
    .take ⟨.operand, .yes r.1 :: r.2⟩
  | _ => close t e s

def step (s : State) (t : Token) : Step :=
  match s.mode with
  | .operand => operand t s.stack
  | .bracket =>
    if t.kind = .lbracket then .take ⟨.operand, .index :: s.stack⟩
    else .fail (wanted .openBracket t)
  | .value e => value e t s.stack

def run : State → List Token → Except SyntaxError (Expr × List Token)
  | _, [] => .error ⟨0, .unexpectedEnd⟩
  | s, t :: ts =>
    match step s t with
    | .take s' => run s' ts
    | .done e => .ok (e, t :: ts)
    | .fail f => .error ⟨t.pos, f⟩

def ended (e : Expr) : List Token → Except SyntaxError Expr
  | [] => .ok e
  | t :: _ => if t.kind = .eof then .ok e else .error ⟨t.pos, .trailing t.text⟩

/-- A whole expression. One semicolon may follow it. -/
def expression (ts : List Token) : Except SyntaxError Expr := do
  let (e, rest) ← run .start ts
  match rest with
  | t :: more => if t.kind = .semicolon then ended e more else ended e rest
  | [] => ended e []

/-- How much of an assignment has been read. -/
inductive Phase where
  | start
  | int
  | name (declares : Bool) (target : String)
  | value (declares : Bool) (target : String) (op : Option BinaryOp) (s : State)
  deriving DecidableEq, Repr

def assignOp (s : String) : Option BinaryOp := BinaryOp.ofText? (String.ofList s.toList.dropLast)

def assigned (declares : Bool) (target : String) (t : Token) : Except SyntaxError Phase :=
  if t.kind = .assign then .ok (.value declares target (assignOp t.text) .start)
  else .error ⟨t.pos, wanted .assignment t⟩

/-- Assignments, each ended by a semicolon or by the end; empty ones are passed over. -/
def assigns : Phase → List Token → Except SyntaxError (List Assign)
  | _, [] => .ok []
  | .start, t :: ts =>
    match t.kind with
    | .eof => .ok []
    | .semicolon => assigns .start ts
    | .ident => assigns (if t.text = "int" then .int else .name false t.text) ts
    | _ => .error ⟨t.pos, wanted .identifier t⟩
  | .int, t :: ts =>
    if t.kind = .ident then assigns (.name true t.text) ts
    else do assigns (← assigned false "int" t) ts
  | .name d x, t :: ts => do assigns (← assigned d x t) ts
  | .value d x o s, t :: ts =>
    match step s t with
    | .take s' => assigns (.value d x o s') ts
    | .fail f => .error ⟨t.pos, f⟩
    | .done e =>
      match t.kind with
      | .semicolon => do return ⟨d, x, o, e⟩ :: (← assigns .start ts)
      | .eof => .ok [⟨d, x, o, e⟩]
      | _ => .error ⟨t.pos, wanted .semicolon t⟩

end Reader

def Expr.parse (src : Bytes) : Except SyntaxError Expr := do
  Reader.expression (← tokenize src)

def Assign.parse (src : Bytes) : Except SyntaxError (List Assign) := do
  Reader.assigns .start (← tokenize src)

end TiledAutomata
