import MailRules.Text.Digits

/-!
The digest SHA-256 of a text, as 64 hexadecimal digits.

The bytes of the text are padded with a one bit, zeros and their number of bits to a multiple of 64
bytes, and each block of 64 is mixed into eight words in 64 rounds.
-/

namespace MailRules.Text

namespace Sha256

/-- The constants of the rounds: the first 32 bits of the fractional parts of the cube roots of the
first 64 primes. -/
def constants : List UInt32 := [
  0x428a2f98, 0x71374491, 0xb5c0fbcf, 0xe9b5dba5, 0x3956c25b, 0x59f111f1, 0x923f82a4, 0xab1c5ed5,
  0xd807aa98, 0x12835b01, 0x243185be, 0x550c7dc3, 0x72be5d74, 0x80deb1fe, 0x9bdc06a7, 0xc19bf174,
  0xe49b69c1, 0xefbe4786, 0x0fc19dc6, 0x240ca1cc, 0x2de92c6f, 0x4a7484aa, 0x5cb0a9dc, 0x76f988da,
  0x983e5152, 0xa831c66d, 0xb00327c8, 0xbf597fc7, 0xc6e00bf3, 0xd5a79147, 0x06ca6351, 0x14292967,
  0x27b70a85, 0x2e1b2138, 0x4d2c6dfc, 0x53380d13, 0x650a7354, 0x766a0abb, 0x81c2c92e, 0x92722c85,
  0xa2bfe8a1, 0xa81a664b, 0xc24b8b70, 0xc76c51a3, 0xd192e819, 0xd6990624, 0xf40e3585, 0x106aa070,
  0x19a4c116, 0x1e376c08, 0x2748774c, 0x34b0bcb5, 0x391c0cb3, 0x4ed8aa4a, 0x5b9cca4f, 0x682e6ff3,
  0x748f82ee, 0x78a5636f, 0x84c87814, 0x8cc70208, 0x90befffa, 0xa4506ceb, 0xbef9a3f7, 0xc67178f2]

structure Words where
  a : UInt32
  b : UInt32
  c : UInt32
  d : UInt32
  e : UInt32
  f : UInt32
  g : UInt32
  h : UInt32

/-- The words to start with: the first 32 bits of the fractional parts of the square roots of the
first eight primes. -/
def start : Words :=
  ⟨0x6a09e667, 0xbb67ae85, 0x3c6ef372, 0xa54ff53a, 0x510e527f, 0x9b05688c, 0x1f83d9ab, 0x5be0cd19⟩

def rotate (x : UInt32) (n : UInt32) : UInt32 := (x >>> n) ||| (x <<< (32 - n))

/-- A round with a constant and a word of the schedule. -/
def round (w : Words) (kw : UInt32 × UInt32) : Words :=
  let s1 := rotate w.e 6 ^^^ rotate w.e 11 ^^^ rotate w.e 25
  let choice := (w.e &&& w.f) ^^^ ((w.e ^^^ 0xffffffff) &&& w.g)
  let t1 := w.h + s1 + choice + kw.1 + kw.2
  let s0 := rotate w.a 2 ^^^ rotate w.a 13 ^^^ rotate w.a 22
  let majority := (w.a &&& w.b) ^^^ (w.a &&& w.c) ^^^ (w.b &&& w.c)
  ⟨t1 + (s0 + majority), w.a, w.b, w.c, w.d + t1, w.e, w.f, w.g⟩

def Words.add (w x : Words) : Words :=
  ⟨w.a + x.a, w.b + x.b, w.c + x.c, w.d + x.d, w.e + x.e, w.f + x.f, w.g + x.g, w.h + x.h⟩

/-- The next word of a schedule, of which the words so far are given in reverse. -/
def nextWord (sofar : List UInt32) : UInt32 :=
  let back (i : Nat) := sofar.getD (i - 1) 0
  let x := back 15
  let y := back 2
  let s0 := rotate x 7 ^^^ rotate x 18 ^^^ (x >>> 3)
  let s1 := rotate y 17 ^^^ rotate y 19 ^^^ (y >>> 10)
  back 16 + s0 + back 7 + s1

/-- A schedule with the given number of words more, in reverse. -/
def extend : (more : Nat) → List UInt32 → List UInt32
  | 0, ws => ws
  | n + 1, ws => extend n (nextWord ws :: ws)

/-- Bytes in groups of four as words, the first byte being the highest. -/
def wordsOf : List UInt8 → List UInt32
  | a :: b :: c :: d :: rest =>
    (a.toUInt32 <<< 24 ||| b.toUInt32 <<< 16 ||| c.toUInt32 <<< 8 ||| d.toUInt32) :: wordsOf rest
  | _ => []

/-- The digest under way with a block of sixteen words mixed in. -/
def mix (w : Words) (block : List UInt32) : Words :=
  let schedule := (extend 48 block.reverse).reverse
  w.add ((constants.zip schedule).foldl round w)

/-- The digest under way with blocks of sixteen words mixed in, at most the given number of them. -/
def mixAll : (blocks : Nat) → Words → List UInt32 → Words
  | 0, w, _ => w
  | n + 1, w, words => mixAll n (mix w (words.take 16)) (words.drop 16)

/-- Bytes with the padding after them. -/
def padded (bytes : List UInt8) : List UInt8 :=
  let n := bytes.length
  let zeros := (119 - n % 64) % 64
  let bits := (List.range 8).map fun i => ((8 * n) >>> (8 * (7 - i))).toUInt8
  bytes ++ 0x80 :: (List.replicate zeros 0 ++ bits)

/-- The digest of bytes, as eight words. -/
def digest (bytes : List UInt8) : List UInt32 :=
  let words := wordsOf (padded bytes)
  let w := mixAll (words.length / 16) start words
  [w.a, w.b, w.c, w.d, w.e, w.f, w.g, w.h]

end Sha256

def sha256 (s : String) : String :=
  String.ofList ((Sha256.digest s.toUTF8.toList).flatMap fun w => hexDigits 8 w.toNat)

end MailRules.Text
