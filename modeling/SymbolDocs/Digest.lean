import SymbolDocs.Text.Digit

/-!
# SHA-256

The digest of a list of bytes by which settings are told apart. A message is padded to whole blocks of
64 bytes; each block is spread over 64 words, and 64 rounds stir it into a state of eight words.

* `pad` fills the last block up;
* `schedule` spreads a block, `compress` stirs it in;
* `sha256` is the digest as 64 hexadecimal digits.
-/

namespace SymbolDocs.Digest

/-- The constants of the rounds: the fractional parts of the cube roots of the first 64 primes. -/
def roundConstants : List UInt32 :=
  [0x428a2f98, 0x71374491, 0xb5c0fbcf, 0xe9b5dba5, 0x3956c25b, 0x59f111f1, 0x923f82a4, 0xab1c5ed5,
    0xd807aa98, 0x12835b01, 0x243185be, 0x550c7dc3, 0x72be5d74, 0x80deb1fe, 0x9bdc06a7, 0xc19bf174,
    0xe49b69c1, 0xefbe4786, 0x0fc19dc6, 0x240ca1cc, 0x2de92c6f, 0x4a7484aa, 0x5cb0a9dc, 0x76f988da,
    0x983e5152, 0xa831c66d, 0xb00327c8, 0xbf597fc7, 0xc6e00bf3, 0xd5a79147, 0x06ca6351, 0x14292967,
    0x27b70a85, 0x2e1b2138, 0x4d2c6dfc, 0x53380d13, 0x650a7354, 0x766a0abb, 0x81c2c92e, 0x92722c85,
    0xa2bfe8a1, 0xa81a664b, 0xc24b8b70, 0xc76c51a3, 0xd192e819, 0xd6990624, 0xf40e3585, 0x106aa070,
    0x19a4c116, 0x1e376c08, 0x2748774c, 0x34b0bcb5, 0x391c0cb3, 0x4ed8aa4a, 0x5b9cca4f, 0x682e6ff3,
    0x748f82ee, 0x78a5636f, 0x84c87814, 0x8cc70208, 0x90befffa, 0xa4506ceb, 0xbef9a3f7, 0xc67178f2]

/-- The state that is stirred. -/
structure State where
  /-- The first word. -/
  a : UInt32
  /-- The second word. -/
  b : UInt32
  /-- The third word. -/
  c : UInt32
  /-- The fourth word. -/
  d : UInt32
  /-- The fifth word. -/
  e : UInt32
  /-- The sixth word. -/
  f : UInt32
  /-- The seventh word. -/
  g : UInt32
  /-- The eighth word. -/
  h : UInt32

/-- The state before the first block: the fractional parts of the square roots of the first eight
primes. -/
def initial : State :=
  ⟨0x6a09e667, 0xbb67ae85, 0x3c6ef372, 0xa54ff53a, 0x510e527f, 0x9b05688c, 0x1f83d9ab, 0x5be0cd19⟩

/-- A word turned to the right. -/
def rotate (x : UInt32) (n : UInt32) : UInt32 :=
  (x >>> n) ||| (x <<< (32 - n))

/-- A message followed by a one, zeros, and its length in bits in the last eight bytes of a block. -/
def pad (message : List UInt8) : List UInt8 :=
  let n := message.length
  let zeros := (119 - n % 64) % 64
  let bits := 8 * n
  let size := [56, 48, 40, 32, 24, 16, 8, 0].map fun shift => UInt8.ofNat (bits >>> shift)
  message ++ 0x80 :: List.replicate zeros 0 ++ size

/-- Words of four bytes, the first one the highest. -/
def wordsOf : List UInt8 → List UInt32
  | p :: q :: r :: s :: rest =>
    ((p.toUInt32 <<< 24) ||| (q.toUInt32 <<< 16) ||| (r.toUInt32 <<< 8) ||| s.toUInt32) :: wordsOf rest
  | _ => []

/-- The next word of a schedule whose words stand in reverse. -/
def nextWord (ws : List UInt32) : UInt32 :=
  let w2 := ws.getD 1 0
  let w15 := ws.getD 14 0
  let s0 := rotate w15 7 ^^^ rotate w15 18 ^^^ (w15 >>> 3)
  let s1 := rotate w2 17 ^^^ rotate w2 19 ^^^ (w2 >>> 10)
  ws.getD 15 0 + s0 + ws.getD 6 0 + s1

/-- So many more words of a schedule, in reverse. -/
def extendSchedule : Nat → List UInt32 → List UInt32
  | 0, ws => ws
  | n + 1, ws => extendSchedule n (nextWord ws :: ws)

/-- The 64 words of a block of sixteen. -/
def schedule (block : List UInt32) : List UInt32 :=
  (extendSchedule 48 block.reverse).reverse

/-- One round. -/
def round (st : State) (kw : UInt32 × UInt32) : State :=
  let s1 := rotate st.e 6 ^^^ rotate st.e 11 ^^^ rotate st.e 25
  let choice := (st.e &&& st.f) ^^^ (~~~st.e &&& st.g)
  let t1 := st.h + s1 + choice + kw.1 + kw.2
  let s0 := rotate st.a 2 ^^^ rotate st.a 13 ^^^ rotate st.a 22
  let majority := (st.a &&& st.b) ^^^ (st.a &&& st.c) ^^^ (st.b &&& st.c)
  ⟨t1 + (s0 + majority), st.a, st.b, st.c, st.d + t1, st.e, st.f, st.g⟩

/-- Stirs a block in. -/
def compress (st : State) (block : List UInt32) : State :=
  let r := (roundConstants.zip (schedule block)).foldl round st
  ⟨st.a + r.a, st.b + r.b, st.c + r.c, st.d + r.d, st.e + r.e, st.f + r.f, st.g + r.g, st.h + r.h⟩

/-- Stirs in blocks of sixteen words; `count` of them are left. -/
def compressAll : Nat → State → List UInt32 → State
  | 0, st, _ => st
  | count + 1, st, words => compressAll count (compress st (words.take 16)) (words.drop 16)

/-- The digest of a message. -/
def sha256 (message : List UInt8) : String :=
  let words := wordsOf (pad message)
  let st := compressAll (words.length / 16) initial words
  String.ofList ([st.a, st.b, st.c, st.d, st.e, st.f, st.g, st.h].flatMap fun w =>
    Text.hexDigits 8 w.toNat)

end SymbolDocs.Digest
