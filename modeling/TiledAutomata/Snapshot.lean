import TiledAutomata.Simulator

/-!
# Snapshots

The state of every instance of a simulator. The binary form is a header of sixteen
bytes, namely four letters, a version, the number of instances and the words of each,
and then all words. Every number is little-endian.
-/

namespace TiledAutomata

open Text (Bytes)

structure Snapshot where
  count : Int64
  stateSize : Int64
  words : Words

namespace Snapshot

def magic : Bytes := [0x43, 0x41, 0x53, 0x54]

def version : UInt32 := 1

def limit : Nat := Nat.pow 2 30

def putWord (w : UInt32) : Bytes :=
  [w.toUInt8, (w >>> 8).toUInt8, (w >>> 16).toUInt8, (w >>> 24).toUInt8]

def takeWord? : Bytes → Option (UInt32 × Bytes)
  | a :: b :: c :: d :: rest =>
    some (a.toUInt32 ||| (b.toUInt32 <<< 8) ||| (c.toUInt32 <<< 16) ||| (d.toUInt32 <<< 24), rest)
  | _ => none

def takeWords? : Nat → Words → Bytes → Option Words
  | 0, ws, _ => some ws
  | n + 1, ws, bs =>
    match takeWord? bs with
    | some (w, rest) => takeWords? n (ws.push w.toInt32) rest
    | none => none

def encode (s : Snapshot) : Except Error Bytes :=
  if Int64.ofNat s.words.size ≠ s.count * s.stateSize then
    .error (.plain ("snapshot: " ++ toString s.words.size ++ " words for " ++
      toString s.count.toInt ++ " instances of " ++ toString s.stateSize.toInt))
  else .ok (magic ++ putWord version ++ putWord s.count.toUInt64.toUInt32 ++
    putWord s.stateSize.toUInt64.toUInt32 ++
    s.words.toList.flatMap fun w => putWord w.toUInt32)

/-- Reading ends before anything was read, or in the middle. -/
def cut (what : String) (bs : Bytes) : Error :=
  .noted .format (what ++ ": " ++ if bs.isEmpty then "EOF" else "unexpected EOF")

/-- The words that are read at once. -/
def chunk : Nat := 16 * 1024

/-- Reads words in so many chunks, of which the last may be shorter. -/
def readChunks : Nat → Nat → Words → Bytes → Except Error Words
  | 0, _, ws, _ => .ok ws
  | chunks + 1, remaining, ws, bs =>
    let k := min remaining chunk
    match takeWords? k ws bs with
    | some ws => readChunks chunks (remaining - k) ws (bs.drop (4 * k))
    | none => .error (cut "state" bs)

def readWords (n : Nat) (bs : Bytes) : Except Error Words :=
  readChunks ((n + chunk - 1) / chunk) n #[] bs

def decode (bs : Bytes) : Except Error Snapshot := do
  if bs.length < 16 then throw (cut "header" bs)
  let number (i : Nat) : UInt32 := ((takeWord? (bs.drop (4 * i))).map (·.1)).getD 0
  if bs.take 4 ≠ magic then
    throw (.noted .format ("bad magic " ++ Text.quoteBytes (bs.take 4)))
  if number 1 ≠ version then throw (.noted .version (toString (number 1).toNat))
  let count := (number 2).toNat
  let size := (number 3).toNat
  if limit < count * size then
    throw (.noted .format (toString count ++ " instances of " ++ toString size ++ " words"))
  let words ← readWords (count * size) (bs.drop 16)
  return ⟨Int64.ofNat count, Int64.ofNat size, words⟩

variable {σ : Type}

def capture (sim : Simulator σ) : Act σ Snapshot := do
  let buf ← Act.orAbort (Words.zeros? (sim.size * sim.stateSize))
  let words ← Act.during "snapshot: capture" (sim.states buf)
  return ⟨sim.size, sim.stateSize, words⟩

def shape (count size : Int64) : String := toString count.toInt ++ "x" ++ toString size.toInt

def restore (s : Snapshot) (sim : Simulator σ) : Act σ Unit := do
  if sim.size ≠ s.count ∨ sim.stateSize ≠ s.stateSize then
    throw (.noted .mismatch ("snapshot " ++ shape s.count s.stateSize ++ ", simulator " ++
      shape sim.size sim.stateSize))
  Act.during "snapshot: restore" (sim.setStates s.words)

def instance? (s : Snapshot) (i : Int64) : Option Words :=
  s.words.slice? (i * s.stateSize) ((i + 1) * s.stateSize)

end Snapshot

end TiledAutomata
