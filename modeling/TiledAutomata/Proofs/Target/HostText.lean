import TiledAutomata.Emit.Package
import TiledAutomata.Proofs.Target.Phrase

/-!
# Host source as terms

What the reader of host source leaves, without places: terms and functions; and the words
of the host dialect.
-/

namespace TiledAutomata.Emit.Host

open Target

mutual

def Node.term? : Node → Option Term
  | .name n => some (.name n.text)
  | .literal l => if l.kind = .integer then some (.literal l.text) else none
  | .group _ x _ => do return .group (← x.term?)
  | .select x n => do return .select (← x.term?) n.text
  | .index x _ [i] _ => do return .index (← x.term?) (← i.term?)
  | .call (.name f) _ args 0 _ => do return .call f.text [] (← terms? args)
  | .unary _ op x => do return .unary op (← x.term?)
  | .binary x _ op y => do return .binary op (← x.term?) (← y.term?)
  | _ => none

def terms? : List Node → Option Terms
  | [] => some .nil
  | x :: xs => do return .cons (← x.term?) (← terms? xs)

end

def expression? (text : String) : Option Term := do
  let s ← Source.ofText text
  let g := Grammar.ofDepth (16 * s.tokens.length + 16)
  let (x, rest) ← (Reader.readExpr g false 1).run s.tokens
  if rest.all fun t => t.kind = .separator false || t.kind = .stop then x.term? else none

def Node.type? : Node → Option String
  | .name n => some n.text
  | .array _ none (.name n) => some ("[]" ++ n.text)
  | _ => none

mutual

def Block.body? : Block → Option Body
  | .mk _ ss _ => body? ss

def body? : List Stmt → Option Body
  | [] => some .done
  | .leave _ [x] :: _ => do return .leave (← x.term?)
  | .assign [.name n] _ op [x] :: ss => do
    let v ← x.term?
    let rest ← body? ss
    if op = ":=" then return .define n.text v rest
    else if op = "=" then return .assign n.text v rest
    else return .assign n.text (.binary (String.ofList op.toList.dropLast) (.name n.text) v) rest
  | .choose _ none c yes none :: ss => do
    return .choose (← c.term?) (← yes.body?) (← body? ss)
  | _ => none

end

def Field.params? (f : Field) : Option (List (String × String)) := do
  let t ← f.type.type?
  return f.names.map fun n => (n.text, t)

def Func.function? (f : Func) : Option Function :=
  match f.results, f.body with
  | some (.mk _ [r] _), some b => do
    let ps ← f.params.fields.mapM Field.params?
    return ⟨f.name.text, ps.flatten, ← r.type.type?, ← b.body?⟩
  | _, _ => none

def Member.function? : Member → Option Function
  | .func f => f.function?
  | .decl _ => none

def functions? (text : String) : Option (List Function) := do
  (← File.ofText text).members.mapM Member.function?

/-! ## The words of the dialect -/

open Phrase

def wording : Wording where
  literal v := if v < 0 then group (unary "-" (number (toString v.toInt.natAbs)))
    else number v.text
  zero := "0"
  complement := "^"
  truth := "caBool"
  helper h := "ca" ++ h
  cond c t e := call "caSelect" [c, t, e]
  ident x := ⟨[.word "u", .mark ".", .word x], .select (.name "u") x⟩
  input p := call "caInput" [name "input", p]
  inputLength := call "int32" [call "len" [name "input"]]

theorem wording_writes : wording.Writes Dialect.host Package.env := by
  constructor
  case literal =>
    intro v
    by_cases h : v < 0
    · simp [Dialect.host, wording, h, text_neg h, Phrase.text, group, unary, number, Piece.text,
        String.append_assoc]
    · simp [Dialect.host, wording, h, Phrase.text, number, Piece.text]
  case unary =>
    intro o p
    apply String.toList_injective
    cases o <;> simp [Dialect.host, Wording.unary, wording, Phrase.text, group, unary, call,
      listed, binary, number, Piece.text]
  case binary =>
    intro o p q
    apply String.toList_injective
    cases o <;> simp [Dialect.host, Dialect.helper?, Dialect.isComparison, Dialect.isLogical,
      BinaryOp.text, Wording.binary, Wording.holds, wording, Phrase.text, group, call, listed,
      binary, number, Piece.text]
  all_goals
    intros
    apply String.toList_injective
    simp [Dialect.host, Package.env, Package.field, Package.call, Wording.holds, wording,
      Phrase.text, call, listed, binary, number, name, Piece.text]

end TiledAutomata.Emit.Host
