/-!
# Bytes of a text

Source texts are byte strings, positions are byte offsets. Decoding keeps every byte
that starts no well-formed sequence, so nothing of a malformed text is lost.
-/

namespace TiledAutomata.Text

abbrev Bytes := List UInt8

def bytes (s : String) : Bytes := s.toUTF8.data.toList

def ofAscii (bs : Bytes) : String := String.ofList (bs.map fun b => Char.ofNat b.toNat)

def ascii (s : String) : Bytes := s.toList.map fun c => UInt8.ofNat c.toNat

def isTail (b : UInt8) : Bool := 0x80 ≤ b && b ≤ 0xbf

def secondBounds (a : UInt8) : UInt8 × UInt8 :=
  if a == 0xe0 then (0xa0, 0xbf)
  else if a == 0xed then (0x80, 0x9f)
  else if a == 0xf0 then (0x90, 0xbf)
  else if a == 0xf4 then (0x80, 0x8f)
  else (0x80, 0xbf)

def isSecond (a b : UInt8) : Bool := (secondBounds a).1 ≤ b && b ≤ (secondBounds a).2

def low (b : UInt8) : Nat := b.toNat % 64

def decode : Bytes → List (Except UInt8 Char)
  | [] => []
  | a :: r =>
    if a < 0x80 then .ok (Char.ofNat a.toNat) :: decode r
    else match r with
      | [] => [.error a]
      | b :: r2 =>
        if 0xc2 ≤ a && a ≤ 0xdf && isTail b then
          .ok (Char.ofNat (a.toNat % 32 * 64 + low b)) :: decode r2
        else match r2 with
          | [] => .error a :: decode [b]
          | c :: r3 =>
            if 0xe0 ≤ a && a ≤ 0xef && isSecond a b && isTail c then
              .ok (Char.ofNat ((a.toNat % 16 * 64 + low b) * 64 + low c)) :: decode r3
            else match r3 with
              | [] => .error a :: decode [b, c]
              | d :: r4 =>
                if 0xf0 ≤ a && a ≤ 0xf4 && isSecond a b && isTail c && isTail d then
                  .ok (Char.ofNat (((a.toNat % 8 * 64 + low b) * 64 + low c) * 64 + low d)) ::
                    decode r4
                else .error a :: decode (b :: c :: d :: r4)

def isValid (bs : Bytes) : Bool := (decode bs).all fun u => u.isOk

def replacement : Char := Char.ofNat 0xfffd

def lossy (bs : Bytes) : String :=
  String.ofList ((decode bs).map fun u => u.toOption.getD replacement)

end TiledAutomata.Text
