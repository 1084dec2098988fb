import TiledAutomata.Picture

/-!
# Portable network graphics

A picture in shades of gray, eight bits each. The pixels are stored without compression.
-/

namespace TiledAutomata.Png

open Text (Bytes)

def putWord (w : UInt32) : Bytes :=
  [(w >>> 24).toUInt8, (w >>> 16).toUInt8, (w >>> 8).toUInt8, w.toUInt8]

def crcBits : Nat → UInt32 → UInt32
  | 0, c => c
  | n + 1, c => crcBits n (if c &&& 1 = 1 then (c >>> 1) ^^^ 0xedb88320 else c >>> 1)

def crc (bs : Bytes) : UInt32 :=
  bs.foldl (fun c b => crcBits 8 (c ^^^ b.toUInt32)) 0xffffffff ^^^ 0xffffffff

def adler (bs : Bytes) : UInt32 :=
  let (a, b) := bs.foldl (fun (a, b) x =>
    let a := (a + x.toUInt32) % 65521
    (a, (b + a) % 65521)) (((1 : UInt32), (0 : UInt32)))
  (b <<< 16) ||| a

def chunk (kind : String) (content : Bytes) : Bytes :=
  let body := Text.ascii kind ++ content
  putWord (UInt32.ofNat content.length) ++ body ++ putWord (crc body)

def blockSize : Nat := 65535

/-- Stored blocks. There is one more than the full ones. -/
def blocks : Nat → Bytes → Bytes
  | 0, bs => block true bs
  | n + 1, bs =>
    if bs.length ≤ blockSize then block true bs
    else block false (bs.take blockSize) ++ blocks n (bs.drop blockSize)
where
  block (last : Bool) (bs : Bytes) : Bytes :=
    let n := UInt16.ofNat bs.length
    [if last then 1 else 0, n.toUInt8, (n >>> 8).toUInt8, (~~~n).toUInt8,
      (~~~n >>> 8).toUInt8] ++ bs

def compressed (bs : Bytes) : Bytes :=
  [0x78, 0x01] ++ blocks (bs.length / blockSize) bs ++ putWord (adler bs)

def encode (p : Picture) : Bytes :=
  [0x89, 0x50, 0x4e, 0x47, 0x0d, 0x0a, 0x1a, 0x0a] ++
  chunk "IHDR" (putWord (UInt32.ofNat p.width) ++ putWord (UInt32.ofNat p.height) ++
    [8, 0, 0, 0, 0]) ++
  chunk "IDAT" (compressed (p.rows.flatMap fun row => 0 :: row)) ++
  chunk "IEND" []

end TiledAutomata.Png
