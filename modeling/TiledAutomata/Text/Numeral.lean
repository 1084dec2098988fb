/-!
# Numerals

Integers in the notation of their base: `0x`, `0o` and `0b` or a leading zero choose
it, and single underscores may separate digits. A numeral that leaves its range is
told apart from one that is malformed; the first fault from the left decides.
-/

namespace TiledAutomata.Text.Numeral

inductive Fault where
  | malformed
  | outOfRange
  deriving DecidableEq, Repr

def digit? (c : Char) : Option Nat :=
  let n := c.toNat
  if 48 ≤ n && n ≤ 57 then some (n - 48)
  else if 97 ≤ n && n ≤ 122 then some (n - 87)
  else if 65 ≤ n && n ≤ 90 then some (n - 55)
  else none

/-- The value of a digit string in a base, at most `top`. Underscores are passed over when
`loose`. -/
def digits (base top : Nat) (loose : Bool) (acc : Nat) : List Char → Except Fault Nat
  | [] => .ok acc
  | c :: cs =>
    if loose && c == '_' then digits base top loose acc cs
    else match digit? c with
      | none => .error .malformed
      | some d =>
        if base ≤ d then .error .malformed
        else if top < acc * base + d then .error .outOfRange
        else digits base top loose (acc * base + d) cs

/-- Every underscore stands between digits. The flag tells whether a digit, or the mark of
the base, came just before. -/
def spaced (afterDigit : Bool) : List Char → Bool
  | [] => afterDigit
  | c :: cs => if c == '_' then afterDigit && spaced false cs else spaced true cs

def base : List Char → Nat × List Char
  | '0' :: m :: c :: cs =>
    if m == 'b' || m == 'B' then (2, c :: cs)
    else if m == 'o' || m == 'O' then (8, c :: cs)
    else if m == 'x' || m == 'X' then (16, c :: cs)
    else (8, m :: c :: cs)
  | '0' :: cs => (8, cs)
  | cs => (10, cs)

def unsigned (top : Nat) (cs : List Char) : Except Fault Nat :=
  if cs.isEmpty then .error .malformed
  else
    let (b, ds) := base cs
    match digits b top true 0 ds with
    | .error f => .error f
    | .ok n => if ds.contains '_' && !spaced (b != 10) ds then .error .malformed else .ok n

def decimal (top : Nat) (cs : List Char) : Except Fault Nat :=
  if cs.isEmpty then .error .malformed else digits 10 top false 0 cs

/-- A sign in front of a numeral of 64 bits. The magnitude is read first, then bounded. -/
def signed (read : Nat → List Char → Except Fault Nat) (cs : List Char) : Except Fault Int :=
  match cs with
  | '-' :: ds => do
    let n ← read (Nat.pow 2 64 - 1) ds
    if Nat.pow 2 63 < n then .error .outOfRange else .ok (-(n : Int))
  | '+' :: ds => do
    let n ← read (Nat.pow 2 64 - 1) ds
    if Nat.pow 2 63 ≤ n then .error .outOfRange else .ok n
  | ds => do
    let n ← read (Nat.pow 2 64 - 1) ds
    if Nat.pow 2 63 ≤ n then .error .outOfRange else .ok n

def int64 (s : String) : Except Fault Int := signed unsigned s.toList

def decimal64 (s : String) : Except Fault Int := signed decimal s.toList

def word32 (s : String) : Except Fault Nat := unsigned (Nat.pow 2 32 - 1) s.toList

def word64 (s : String) : Except Fault Nat := unsigned (Nat.pow 2 64 - 1) s.toList

end TiledAutomata.Text.Numeral
