import TiledAutomata.Text.Quoted

/-!
# Tokens of the expression language

Blanks and line comments separate tokens. A number or a word runs as far as letters,
digits and underscores go; any other token is the longest spelling that starts there.
-/

namespace TiledAutomata

open Text (Bytes)

/-- What a reader of the language wanted in place of the token it found. -/
inductive Wanted where
  | colon
  | openBracket
  | closeBracket
  | closeParen
  | semicolon
  | identifier
  | assignment
  deriving DecidableEq, Repr

def Wanted.text : Wanted → String
  | .colon => "':'"
  | .openBracket => "'['"
  | .closeBracket => "']'"
  | .closeParen => "')'"
  | .semicolon => "';'"
  | .identifier => "identifier"
  | .assignment => "assignment"

inductive SyntaxFault where
  | badByte (b : UInt8)
  | badNumber (found : String)
  | wanted (what : Wanted) (found : String)
  | wantedAtEnd (what : Wanted)
  | unexpected (found : String)
  | unexpectedEnd
  | trailing (found : String)
  deriving DecidableEq, Repr

/-- A fault of a source text and the byte offset where it was found. -/
structure SyntaxError where
  pos : Nat
  fault : SyntaxFault
  deriving DecidableEq, Repr

def SyntaxFault.message : SyntaxFault → String
  | .badByte b => "unexpected character " ++ Text.quoteByte b
  | .badNumber s => "invalid number " ++ Text.quote s
  | .wanted w s => "expected " ++ w.text ++ ", found " ++ Text.quote s
  | .wantedAtEnd w => "expected " ++ w.text ++ ", found end of input"
  | .unexpected s => "unexpected " ++ Text.quote s
  | .unexpectedEnd => "unexpected end of input"
  | .trailing s => "unexpected " ++ Text.quote s ++ " after expression"

def SyntaxError.message (e : SyntaxError) : String :=
  "expr: " ++ toString e.pos ++ ": " ++ e.fault.message

namespace Token

inductive Kind where
  | eof
  | number
  | ident
  | op
  | lparen
  | rparen
  | lbracket
  | rbracket
  | question
  | colon
  | semicolon
  | assign
  deriving DecidableEq, Repr

end Token

structure Token where
  kind : Token.Kind
  text : String
  pos : Nat
  deriving DecidableEq, Repr

namespace Token

def isBlank (c : UInt8) : Bool := c == 32 || c == 9 || c == 10 || c == 13

def isDigit (c : UInt8) : Bool := 48 ≤ c && c ≤ 57

def isWordStart (c : UInt8) : Bool :=
  c == 95 || (97 ≤ c && c ≤ 122) || (65 ≤ c && c ≤ 90)

def isWord (c : UInt8) : Bool := isWordStart c || isDigit c

def slash : UInt8 := 47

def newline : UInt8 := 10

/-- Every spelling of an operator or a mark, each before its own beginnings. -/
def spellings : List (String × Kind) :=
  [(">>>=", .assign),
    ("<<=", .assign), (">>=", .assign), (">>>", .op),
    ("&&", .op), ("||", .op), ("<<", .op), (">>", .op),
    ("<=", .op), (">=", .op), ("==", .op), ("!=", .op),
    ("+=", .assign), ("-=", .assign), ("*=", .assign), ("/=", .assign),
    ("%=", .assign), ("&=", .assign), ("|=", .assign), ("^=", .assign),
    ("+", .op), ("-", .op), ("*", .op), ("/", .op), ("%", .op),
    ("&", .op), ("|", .op), ("^", .op), ("~", .op), ("!", .op), ("<", .op), (">", .op),
    ("=", .assign),
    ("(", .lparen), (")", .rparen), ("[", .lbracket), ("]", .rbracket),
    ("?", .question), (":", .colon), (";", .semicolon)]

def lexeme? (c : UInt8) (cs : Bytes) : Option (Kind × Nat) :=
  if isDigit c then some (.number, (cs.takeWhile isWord).length)
  else if isWordStart c then some (.ident, (cs.takeWhile isWord).length)
  else
    (spellings.find? fun s => (Text.ascii s.1).isPrefixOf (c :: cs)).map fun s =>
      (s.2, s.1.length - 1)

/-- Where a scan stands: between tokens, in a comment, or with bytes of a token left. -/
inductive Place where
  | between
  | comment
  | within (left : Nat)

def scan : Place → Nat → Bytes → Except SyntaxError (List Token)
  | _, pos, [] => .ok [⟨.eof, "", pos⟩]
  | .comment, pos, c :: cs => scan (if c == newline then .between else .comment) (pos + 1) cs
  | .within (k + 1), pos, _ :: cs => scan (.within k) (pos + 1) cs
  | _, pos, c :: cs =>
    if isBlank c then scan .between (pos + 1) cs
    else if c == slash && cs.head? == some slash then scan .comment (pos + 1) cs
    else match lexeme? c cs with
      | none => .error ⟨pos, .badByte c⟩
      | some (k, n) => do
        let ts ← scan (.within n) (pos + 1) cs
        return ⟨k, Text.ofAscii (c :: cs.take n), pos⟩ :: ts

end Token

def tokenize (src : Bytes) : Except SyntaxError (List Token) := Token.scan .between 0 src

end TiledAutomata
