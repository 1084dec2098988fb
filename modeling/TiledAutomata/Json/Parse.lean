import TiledAutomata.Json.Basic

/-!
# Reading documents

The first value of a text is read and what follows it is not looked at. A malformed
byte counts as the replacement character, and so does an escaped surrogate without its
partner.
-/

namespace TiledAutomata.Json

inductive Fault where
  | empty
  | malformed
  deriving DecidableEq, Repr

def isBlank (c : Char) : Bool := c == ' ' || c == '\t' || c == '\n' || c == '\r'

def skip (cs : List Char) : List Char := cs.dropWhile isBlank

def isDigit (c : Char) : Bool := '0' ≤ c && c ≤ '9'

def hexValue? (c : Char) : Option Nat :=
  if '0' ≤ c && c ≤ '9' then some (c.toNat - 48)
  else if 'a' ≤ c && c ≤ 'f' then some (c.toNat - 87)
  else if 'A' ≤ c && c ≤ 'F' then some (c.toNat - 55)
  else none

def unit16? : List Char → Option (Nat × List Char)
  | a :: b :: c :: d :: r => do
    let a ← hexValue? a
    let b ← hexValue? b
    let c ← hexValue? c
    let d ← hexValue? d
    return (((a * 16 + b) * 16 + c) * 16 + d, r)
  | _ => none

def isHigh (n : Nat) : Bool := 0xd800 ≤ n && n ≤ 0xdbff

def isLow (n : Nat) : Bool := 0xdc00 ≤ n && n ≤ 0xdfff

def isSurrogate (n : Nat) : Bool := 0xd800 ≤ n && n ≤ 0xdfff

/-- What a code unit stands for: a pending high surrogate takes a low one with it, and is
replaced before anything else. -/
def unit (pending : Option Nat) (n : Nat) : List Char × Option Nat :=
  match pending with
  | some h =>
    if isLow n then ([Char.ofNat (0x10000 + (h - 0xd800) * 0x400 + (n - 0xdc00))], none)
    else if isHigh n then ([Text.replacement], some n)
    else ([Text.replacement, Char.ofNat n], none)
  | none =>
    if isHigh n then ([], some n)
    else if isLow n then ([Text.replacement], none)
    else ([Char.ofNat n], none)

def flush (pending : Option Nat) : List Char :=
  if pending.isSome then [Text.replacement] else []

def simpleEscape? (c : Char) : Option Char :=
  if c == '"' || c == '\\' || c == '/' then some c
  else [('b', Char.ofNat 8), ('f', Char.ofNat 12), ('n', '\n'), ('r', '\r'), ('t', '\t')].lookup c

def stringBody : Nat → Option Nat → List Char → Except Fault (List Char × List Char)
  | 0, _, _ => .error .malformed
  | fuel + 1, pending, cs =>
    match cs with
    | [] => .error .malformed
    | '"' :: r => .ok (flush pending, r)
    | '\\' :: 'u' :: r =>
      match unit16? r with
      | none => .error .malformed
      | some (n, r) => do
        let (out, pending') := unit pending n
        let (s, r) ← stringBody fuel pending' r
        return (out ++ s, r)
    | '\\' :: c :: r =>
      match simpleEscape? c with
      | none => .error .malformed
      | some e => do
        let (s, r) ← stringBody fuel none r
        return (flush pending ++ e :: s, r)
    | c :: r =>
      if c.toNat < 0x20 || c == '\\' then .error .malformed
      else do
        let (s, r) ← stringBody fuel none r
        return (flush pending ++ c :: s, r)

def string (fuel : Nat) (cs : List Char) : Except Fault (String × List Char) := do
  let (s, r) ← stringBody fuel none cs
  return (String.ofList s, r)

def digits (cs : List Char) : Except Fault (List Char × List Char) :=
  match cs.span isDigit with
  | ([], _) => .error .malformed
  | (ds, r) => .ok (ds, r)

def whole (cs : List Char) : Except Fault (List Char × List Char) :=
  match cs with
  | '0' :: r => .ok (['0'], r)
  | _ => digits cs

def fraction (cs : List Char) : Except Fault (List Char × List Char) :=
  match cs with
  | '.' :: r => do
    let (ds, r) ← digits r
    return ('.' :: ds, r)
  | _ => .ok ([], cs)

def exponentSign (cs : List Char) : List Char × List Char :=
  match cs with
  | '+' :: r => (['+'], r)
  | '-' :: r => (['-'], r)
  | _ => ([], cs)

def exponent (cs : List Char) : Except Fault (List Char × List Char) :=
  match cs with
  | c :: r =>
    if c == 'e' || c == 'E' then do
      let (s, r) := exponentSign r
      let (ds, r) ← digits r
      return (c :: s ++ ds, r)
    else .ok ([], cs)
  | [] => .ok ([], [])

def number (cs : List Char) : Except Fault (Json × List Char) := do
  let (sign, r) := match cs with
    | '-' :: r => (['-'], r)
    | _ => ([], cs)
  let (i, r) ← whole r
  let (f, r) ← fraction r
  let (e, r) ← exponent r
  return (.num (String.ofList (sign ++ i ++ f ++ e)), r)

def keyword (w : String) (j : Json) (cs : List Char) : Except Fault (Json × List Char) :=
  if w.toList.isPrefixOf cs then .ok (j, cs.drop w.length) else .error .malformed

def maxDepth : Nat := 10000

mutual

def value (fuel depth : Nat) (cs : List Char) : Except Fault (Json × List Char) :=
  match fuel with
  | 0 => .error .malformed
  | fuel + 1 =>
    match skip cs with
    | [] => .error .malformed
    | '[' :: r =>
      if maxDepth ≤ depth then .error .malformed
      else match skip r with
        | ']' :: r => .ok (.arr [], r)
        | r => do
          let (xs, r) ← items fuel (depth + 1) r
          return (.arr xs, r)
    | '\x7b' :: r =>
      if maxDepth ≤ depth then .error .malformed
      else match skip r with
        | '\x7d' :: r => .ok (.obj [], r)
        | r => do
          let (ms, r) ← members fuel (depth + 1) r
          return (.obj ms, r)
    | '"' :: r => do
      let (s, r) ← string fuel r
      return (.str s, r)
    | 't' :: r => keyword "true" (.bool true) ('t' :: r)
    | 'f' :: r => keyword "false" (.bool false) ('f' :: r)
    | 'n' :: r => keyword "null" .null ('n' :: r)
    | r => number r

def items (fuel depth : Nat) (cs : List Char) : Except Fault (List Json × List Char) :=
  match fuel with
  | 0 => .error .malformed
  | fuel + 1 => do
    let (x, r) ← value fuel depth cs
    match skip r with
    | ',' :: r =>
      let (xs, r) ← items fuel depth r
      return (x :: xs, r)
    | ']' :: r => return ([x], r)
    | _ => .error .malformed

def members (fuel depth : Nat) (cs : List Char) :
    Except Fault (List (String × Json) × List Char) :=
  match fuel with
  | 0 => .error .malformed
  | fuel + 1 =>
    match skip cs with
    | '"' :: r => do
      let (k, r) ← string fuel r
      match skip r with
      | ':' :: r =>
        let (v, r) ← value fuel depth r
        match skip r with
        | ',' :: r =>
          let (ms, r) ← members fuel depth r
          return ((k, v) :: ms, r)
        | '\x7d' :: r => return ([(k, v)], r)
        | _ => .error .malformed
      | _ => .error .malformed
    | _ => .error .malformed

end

def parse (bs : Text.Bytes) : Except Fault Json :=
  let cs := (Text.lossy bs).toList
  if (skip cs).isEmpty then .error .empty
  else (value (2 * cs.length + 2) 0 cs).map (·.1)

end TiledAutomata.Json
