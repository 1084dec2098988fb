import TiledAutomata.Text.Utf8

/-!
# Bytes in base 64

Three bytes are four digits. A last group with fewer bytes is filled up with equals signs.
-/

namespace TiledAutomata.Text.Base64

def digit (n : Nat) : Char :=
  Char.ofNat
    (if n < 26 then n + 65
    else if n < 52 then n + 71
    else if n < 62 then n - 4
    else if n = 62 then 43 else 47)

def value? (c : Char) : Option Nat :=
  if c.isUpper then some (c.toNat - 65)
  else if c.isLower then some (c.toNat - 71)
  else if c.isDigit then some (c.toNat + 4)
  else if c == '+' then some 62
  else if c == '/' then some 63 else none

def digits : Bytes → List Char
  | a :: b :: c :: bs =>
    let n := (a.toNat * 256 + b.toNat) * 256 + c.toNat
    digit (n / 262144) :: digit (n / 4096 % 64) :: digit (n / 64 % 64) :: digit (n % 64) ::
      digits bs
  | [a, b] =>
    let n := a.toNat * 256 + b.toNat
    [digit (n / 1024), digit (n / 16 % 64), digit (n * 4 % 64), '=']
  | [a] => [digit (a.toNat / 4), digit (a.toNat * 16 % 64), '=', '=']
  | [] => []

def encode (bs : Bytes) : String := String.ofList (digits bs)

def bytesOf : List Nat → Bytes
  | a :: b :: c :: d :: ds =>
    let n := ((a * 64 + b) * 64 + c) * 64 + d
    UInt8.ofNat (n / 65536) :: UInt8.ofNat (n / 256) :: UInt8.ofNat n :: bytesOf ds
  | [a, b, c] =>
    let n := (a * 64 + b) * 64 + c
    [UInt8.ofNat (n / 1024), UInt8.ofNat (n / 4)]
  | [a, b] => [UInt8.ofNat ((a * 64 + b) / 16)]
  | _ => []

/-- The bytes of the digits of a text. Whatever is no digit is passed over. -/
def decode (s : String) : Bytes := bytesOf (s.toList.filterMap value?)

end TiledAutomata.Text.Base64
