import QuditSim.Arithmetic

/-!
# The SHA-256 digest

A message of bytes is padded to whole blocks of 64 bytes; each block is spread into a schedule
of 64 words and stirred into a state of eight words, whose bytes are the digest.
-/

namespace QuditSim.Digest

/-- The constants of the 64 rounds. -/
def roundConstants : List UInt32 := [
  0x428a2f98, 0x71374491, 0xb5c0fbcf, 0xe9b5dba5, 0x3956c25b, 0x59f111f1, 0x923f82a4, 0xab1c5ed5,
  0xd807aa98, 0x12835b01, 0x243185be, 0x550c7dc3, 0x72be5d74, 0x80deb1fe, 0x9bdc06a7, 0xc19bf174,
  0xe49b69c1, 0xefbe4786, 0x0fc19dc6, 0x240ca1cc, 0x2de92c6f, 0x4a7484aa, 0x5cb0a9dc, 0x76f988da,
  0x983e5152, 0xa831c66d, 0xb00327c8, 0xbf597fc7, 0xc6e00bf3, 0xd5a79147, 0x06ca6351, 0x14292967,
  0x27b70a85, 0x2e1b2138, 0x4d2c6dfc, 0x53380d13, 0x650a7354, 0x766a0abb, 0x81c2c92e, 0x92722c85,
  0xa2bfe8a1, 0xa81a664b, 0xc24b8b70, 0xc76c51a3, 0xd192e819, 0xd6990624, 0xf40e3585, 0x106aa070,
  0x19a4c116, 0x1e376c08, 0x2748774c, 0x34b0bcb5, 0x391c0cb3, 0x4ed8aa4a, 0x5b9cca4f, 0x682e6ff3,
  0x748f82ee, 0x78a5636f, 0x84c87814, 0x8cc70208, 0x90befffa, 0xa4506ceb, 0xbef9a3f7, 0xc67178f2]

/-- The eight words that are stirred in each round. -/
structure Words where
  /-- The first word. -/
  a : UInt32
  /-- The second word. -/
  b : UInt32
  /-- The third word. -/
  c : UInt32
  /-- The fourth word. -/
  d : UInt32
  /-- The fifth word. -/
  e : UInt32
  /-- The sixth word. -/
  f : UInt32
  /-- The seventh word. -/
  g : UInt32
  /-- The eighth word. -/
  h : UInt32

/-- The words before the first block. -/
def initialWords : Words :=
  ⟨0x6a09e667, 0xbb67ae85, 0x3c6ef372, 0xa54ff53a, 0x510e527f, 0x9b05688c, 0x1f83d9ab, 0x5be0cd19⟩

/-- A word turned to the right by a number of binary digits. -/
def turn (x : UInt32) (n : UInt32) : UInt32 := (x >>> n) ||| (x <<< (32 - n))

/-- One round with one word of the schedule and its constant. -/
def round (s : Words) (word constant : UInt32) : Words :=
  let spread := turn s.e 6 ^^^ turn s.e 11 ^^^ turn s.e 25
  let choice := (s.e &&& s.f) ^^^ (~~~s.e &&& s.g)
  let first := s.h + spread + choice + constant + word
  let spread' := turn s.a 2 ^^^ turn s.a 13 ^^^ turn s.a 22
  let majority := (s.a &&& s.b) ^^^ (s.a &&& s.c) ^^^ (s.b &&& s.c)
  ⟨first + (spread' + majority), s.a, s.b, s.c, s.d + first, s.e, s.f, s.g⟩

/-- The eight words added one by one. -/
def Words.add (s t : Words) : Words :=
  ⟨s.a + t.a, s.b + t.b, s.c + t.c, s.d + t.d, s.e + t.e, s.f + t.f, s.g + t.g, s.h + t.h⟩

/-- The word that four bytes spell, the most significant one first. -/
def wordAt (block : Array UInt8) (i : Nat) : UInt32 :=
  ((block.getD i 0).toUInt32 <<< 24) ||| ((block.getD (i + 1) 0).toUInt32 <<< 16) |||
    ((block.getD (i + 2) 0).toUInt32 <<< 8) ||| (block.getD (i + 3) 0).toUInt32

/-- The next word of a schedule, from the words before it. -/
def nextWord (w : Array UInt32) : UInt32 :=
  let i := w.size
  let x := w.getD (i - 15) 0
  let y := w.getD (i - 2) 0
  w.getD (i - 16) 0 + (turn x 7 ^^^ turn x 18 ^^^ (x >>> 3)) + w.getD (i - 7) 0 +
    (turn y 17 ^^^ turn y 19 ^^^ (y >>> 10))

/-- The 64 words that a block is spread into. -/
def schedule (message : Array UInt8) (start : Nat) : Array UInt32 :=
  (List.range 48).foldl (fun w _ => w.push (nextWord w))
    (Array.ofFn fun i : Fin 16 => wordAt message (start + 4 * i))

/-- The words after one more block. -/
def stir (s : Words) (message : Array UInt8) (start : Nat) : Words :=
  s.add (((schedule message start).toList.zip roundConstants).foldl
    (fun s (word, constant) => round s word constant) s)

/-- The bytes of a number, the most significant one first. -/
def bigEndian (width n : Nat) : List UInt8 :=
  (List.range width).map fun i => (n / 256 ^ (width - 1 - i)).toUInt8

/-- The message with a mark, zeros and its length in binary digits, which together fill whole
blocks. -/
def pad (message : List UInt8) : List UInt8 :=
  message ++ 0x80 :: List.replicate ((119 - message.length % 64) % 64) 0 ++
    bigEndian 8 (8 * message.length)

/-- The 32 bytes of the digest of a message. -/
def sha256 (message : List UInt8) : List UInt8 :=
  let padded := (pad message).toArray
  let s := (List.range (padded.size / 64)).foldl (fun s k => stir s padded (64 * k)) initialWords
  [s.a, s.b, s.c, s.d, s.e, s.f, s.g, s.h].flatMap fun word => bigEndian 4 word.toNat

end QuditSim.Digest
