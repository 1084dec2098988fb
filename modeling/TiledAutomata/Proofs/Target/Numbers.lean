import TiledAutomata.Proofs.Exact

/-!
# Numbers of the targets

The operators that both targets have on their numbers, and how the operators of words come
out of them.
-/

namespace TiledAutomata.Target

open BinaryOp Int32

section Numbers

variable {α : Type}

def compare? [DecidableEq α] [LT α] [LE α] [DecidableLT α] [DecidableLE α] (op : String)
    (x y : α) : Option Bool :=
  match op with
  | "==" => some (decide (x = y))
  | "!=" => some !decide (x = y)
  | "<" => some (decide (x < y))
  | "<=" => some (decide (x ≤ y))
  | ">" => some (decide (y < x))
  | ">=" => some (decide (y ≤ x))
  | _ => none

def total? [Add α] [Sub α] [Mul α] [AndOp α] [OrOp α] [XorOp α] (op : String) (x y : α) :
    Option α :=
  match op with
  | "+" => some (x + y)
  | "-" => some (x - y)
  | "*" => some (x * y)
  | "&" => some (x &&& y)
  | "|" => some (x ||| y)
  | "^" => some (x ^^^ y)
  | _ => none

def divide? [Div α] [Mod α] (op : String) (x y : α) : Option α :=
  match op with
  | "/" => some (x / y)
  | "%" => some (x % y)
  | _ => none

def operate? {V : Type} [DecidableEq α] [LT α] [LE α] [DecidableLT α] [DecidableLE α] [Add α]
    [Sub α] [Mul α] [AndOp α] [OrOp α] [XorOp α] [Div α] [Mod α] (bool : Bool → V) (make : α → V)
    (can : Prop) [Decidable can] (op : String) (x y : α) : Option V :=
  match compare? op x y, total? op x y with
  | some b, _ => some (bool b)
  | none, some z => some (make z)
  | none, none => if can then (divide? op x y).map make else none

def shift? (op : String) (x : Int) (n : Nat) : Option Int :=
  match op with
  | "<<" => some (x * 2 ^ n)
  | ">>" => some (x / 2 ^ n)
  | _ => none

def decimal? (s : String) : Option Nat :=
  let n := Nat.ofDigitChars 10 s.toList 0
  if toString n = s then some n else none

theorem decimal?_toString (n : Nat) : decimal? (toString n) = some n := by
  simp [decimal?, Nat.ofDigitChars_toDigits]

end Numbers

/-! ## Operators of words -/

section Words

variable (a b : Word)

def mask : UInt32 := b.toUInt32 &&& 31

theorem toNat_mask : (mask b).toNat = Exact.count b.toInt := Word.toNat_mask b

theorem mask_lt : (mask b).toNat < 32 := by
  rw [toNat_mask]
  unfold Exact.count
  omega

theorem ofInt_shl : Int32.ofInt (a.toInt * 2 ^ (mask b).toNat) = BinaryOp.shl.apply a b := by
  rw [← toInt_inj, apply_exact, toInt_ofInt, toNat_mask]
  rfl

theorem ofInt_shr : Int32.ofInt (a.toInt / 2 ^ (mask b).toNat) = BinaryOp.shr.apply a b := by
  have h : (shr.apply a b).toInt = a.toInt / 2 ^ (mask b).toNat := by
    rw [apply_exact, toNat_mask]
    rfl
  rw [← h, ofInt_toInt]

theorem ofInt_ushr : Int32.ofInt (a.toUInt32.toNat / 2 ^ (mask b).toNat : Nat) =
    BinaryOp.ushr.apply a b := by
  rw [← toInt_inj, apply_exact, toInt_ofInt, toNat_mask]
  show _ = Exact.wrap (Exact.bits a.toInt / 2 ^ Exact.count b.toInt : Nat)
  rw [← Word.toNat_eq_bits]
  rfl

theorem tmod_brought_up {i n : Int} (hn : 0 < n) :
    (if i.tmod n < 0 then i.tmod n + n else i.tmod n) = i % n := by
  have hlow := Int.emod_nonneg i (Int.ne_of_gt hn)
  have hhigh := Int.emod_lt_of_pos i hn
  rw [Int.tmod_eq_emod]
  by_cases h : 0 ≤ i ∨ n ∣ i
  · rw [if_pos h]
    omega
  · -- A negative number that is no multiple leaves its remainder below zero.
    rw [if_neg h]
    omega

end Words

end TiledAutomata.Target
