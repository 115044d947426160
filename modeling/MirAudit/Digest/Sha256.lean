/-!
# SHA-256

The digest of a sequence of bytes, as hexadecimal text. The message is padded to whole blocks of
sixteen words, and each block is mixed into a state of eight words.
-/

namespace MirAudit.Sha256

/-- The state before the first block. -/
def initialState : List UInt32 := [
  0x6a09e667, 0xbb67ae85, 0x3c6ef372, 0xa54ff53a, 0x510e527f, 0x9b05688c, 0x1f83d9ab,
  0x5be0cd19]

/-- The constants of the 64 rounds. -/
def roundConstants : List UInt32 := [
  0x428a2f98, 0x71374491, 0xb5c0fbcf, 0xe9b5dba5, 0x3956c25b, 0x59f111f1, 0x923f82a4,
  0xab1c5ed5, 0xd807aa98, 0x12835b01, 0x243185be, 0x550c7dc3, 0x72be5d74, 0x80deb1fe,
  0x9bdc06a7, 0xc19bf174, 0xe49b69c1, 0xefbe4786, 0x0fc19dc6, 0x240ca1cc, 0x2de92c6f,
  0x4a7484aa, 0x5cb0a9dc, 0x76f988da, 0x983e5152, 0xa831c66d, 0xb00327c8, 0xbf597fc7,
  0xc6e00bf3, 0xd5a79147, 0x06ca6351, 0x14292967, 0x27b70a85, 0x2e1b2138, 0x4d2c6dfc,
  0x53380d13, 0x650a7354, 0x766a0abb, 0x81c2c92e, 0x92722c85, 0xa2bfe8a1, 0xa81a664b,
  0xc24b8b70, 0xc76c51a3, 0xd192e819, 0xd6990624, 0xf40e3585, 0x106aa070, 0x19a4c116,
  0x1e376c08, 0x2748774c, 0x34b0bcb5, 0x391c0cb3, 0x4ed8aa4a, 0x5b9cca4f, 0x682e6ff3,
  0x748f82ee, 0x78a5636f, 0x84c87814, 0x8cc70208, 0x90befffa, 0xa4506ceb, 0xbef9a3f7,
  0xc67178f2]

/-- Rotation to the right by `n` bits, for `n` between 1 and 31. -/
def rotr (x n : UInt32) : UInt32 :=
  (x >>> n) ||| (x <<< (32 - n))

/-- The big-endian bytes of a number below 2^64. -/
def lengthBytes (n : Nat) : List UInt8 :=
  (List.range 8).map fun i => UInt8.ofNat (n >>> (8 * (7 - i)))

/-- The message with its padding: a one bit, zeros, and the length in bits. -/
def pad (message : List UInt8) : List UInt8 :=
  let zeros := (119 - message.length % 64) % 64
  message ++ 0x80 :: (List.replicate zeros 0 ++ lengthBytes (8 * message.length))

/-- Four bytes at a time as big-endian words. -/
def words : List UInt8 → List UInt32
  | a :: b :: c :: d :: rest =>
    ((a.toUInt32 <<< 24) ||| (b.toUInt32 <<< 16) ||| (c.toUInt32 <<< 8) ||| d.toUInt32)
      :: words rest
  | _ => []

/-- The next word of the schedule, from the last sixteen. -/
def nextWord (schedule : Array UInt32) : UInt32 :=
  let word (back : Nat) := schedule.getD (schedule.size - back) 0
  let s0 := rotr (word 15) 7 ^^^ rotr (word 15) 18 ^^^ (word 15 >>> 3)
  let s1 := rotr (word 2) 17 ^^^ rotr (word 2) 19 ^^^ (word 2 >>> 10)
  word 16 + s0 + word 7 + s1

/-- The 64 words of the schedule of a block. -/
def schedule (block : List UInt32) : List UInt32 :=
  ((List.range 48).foldl (fun ws _ => ws.push (nextWord ws)) block.toArray).toList

/-- One round on a state of eight words. -/
def round (state : List UInt32) (constant word : UInt32) : List UInt32 :=
  match state with
  | [a, b, c, d, e, f, g, h] =>
    let s1 := rotr e 6 ^^^ rotr e 11 ^^^ rotr e 25
    let choice := (e &&& f) ^^^ ((~~~e) &&& g)
    let t1 := h + s1 + choice + constant + word
    let s0 := rotr a 2 ^^^ rotr a 13 ^^^ rotr a 22
    let majority := (a &&& b) ^^^ (a &&& c) ^^^ (b &&& c)
    [t1 + (s0 + majority), a, b, c, d + t1, e, f, g]
  | _ => state

/-- The state after one block. -/
def compress (state block : List UInt32) : List UInt32 :=
  let mixed := (roundConstants.zip (schedule block)).foldl (fun s kw => round s kw.1 kw.2) state
  List.zipWith (· + ·) state mixed

/-- The state after all blocks of sixteen words, `count` at most. -/
def compressAll : (count : Nat) → (state message : List UInt32) → List UInt32
  | 0, state, _ => state
  | count + 1, state, message =>
    if message.isEmpty then state
    else compressAll count (compress state (message.take 16)) (message.drop 16)

/-- The lower-case hexadecimal text of a word. -/
def hexWord (word : UInt32) : List Char :=
  (List.range 8).map fun i => Nat.digitChar ((word.toNat >>> (4 * (7 - i))) % 16)

/-- The digest of a message as 64 hexadecimal digits. -/
def hexDigest (message : List UInt8) : List Char :=
  let ws := words (pad message)
  (compressAll ws.length initialState ws).flatMap hexWord

end MirAudit.Sha256
