import GraphClient.Digest.Word32

/-!
# The SHA-256 digest
-/

namespace GraphClient.Digest.Sha256

/-- The constant of each round: the first bits of the cube roots of the first primes. -/
def constants : Array UInt32 := #[
  0x428a2f98, 0x71374491, 0xb5c0fbcf, 0xe9b5dba5, 0x3956c25b, 0x59f111f1, 0x923f82a4, 0xab1c5ed5,
  0xd807aa98, 0x12835b01, 0x243185be, 0x550c7dc3, 0x72be5d74, 0x80deb1fe, 0x9bdc06a7, 0xc19bf174,
  0xe49b69c1, 0xefbe4786, 0x0fc19dc6, 0x240ca1cc, 0x2de92c6f, 0x4a7484aa, 0x5cb0a9dc, 0x76f988da,
  0x983e5152, 0xa831c66d, 0xb00327c8, 0xbf597fc7, 0xc6e00bf3, 0xd5a79147, 0x06ca6351, 0x14292967,
  0x27b70a85, 0x2e1b2138, 0x4d2c6dfc, 0x53380d13, 0x650a7354, 0x766a0abb, 0x81c2c92e, 0x92722c85,
  0xa2bfe8a1, 0xa81a664b, 0xc24b8b70, 0xc76c51a3, 0xd192e819, 0xd6990624, 0xf40e3585, 0x106aa070,
  0x19a4c116, 0x1e376c08, 0x2748774c, 0x34b0bcb5, 0x391c0cb3, 0x4ed8aa4a, 0x5b9cca4f, 0x682e6ff3,
  0x748f82ee, 0x78a5636f, 0x84c87814, 0x8cc70208, 0x90befffa, 0xa4506ceb, 0xbef9a3f7, 0xc67178f2]

/-- The eight words before the first block: the first bits of the square roots of the first
primes. -/
def initial : Array UInt32 := #[
  0x6a09e667, 0xbb67ae85, 0x3c6ef372, 0xa54ff53a, 0x510e527f, 0x9b05688c, 0x1f83d9ab, 0x5be0cd19]

/-- The sixty-four words that a block is stretched to. -/
def schedule (block : Array UInt32) : Array UInt32 :=
  (List.range 48).foldl
    (fun w i =>
      let x := w.getD (i + 1) 0
      let y := w.getD (i + 14) 0
      let s0 := rotateRight x 7 ^^^ rotateRight x 18 ^^^ x >>> 3
      let s1 := rotateRight y 17 ^^^ rotateRight y 19 ^^^ y >>> 10
      w.push (w.getD i 0 + s0 + w.getD (i + 9) 0 + s1))
    block

def round (w : Array UInt32) (s : Array UInt32) (i : Nat) : Array UInt32 :=
  let (a, b, c, d) := (s.getD 0 0, s.getD 1 0, s.getD 2 0, s.getD 3 0)
  let (e, f, g, h) := (s.getD 4 0, s.getD 5 0, s.getD 6 0, s.getD 7 0)
  let s1 := rotateRight e 6 ^^^ rotateRight e 11 ^^^ rotateRight e 25
  let choice := (e &&& f) ^^^ (~~~e &&& g)
  let t1 := h + s1 + choice + constants.getD i 0 + w.getD i 0
  let s0 := rotateRight a 2 ^^^ rotateRight a 13 ^^^ rotateRight a 22
  let majority := (a &&& b) ^^^ (a &&& c) ^^^ (b &&& c)
  #[t1 + (s0 + majority), a, b, c, d + t1, e, f, g]

def compress (s : Array UInt32) (block : Array UInt32) : Array UInt32 :=
  Array.zipWith (· + ·) s ((List.range 64).foldl (round (schedule block)) s)

def digest (message : List UInt8) : List UInt8 :=
  ((blocks .mostFirst message).foldl compress initial).toList.flatMap (bytesOfWord .mostFirst)

def hexDigest (message : List UInt8) : String := hex (digest message)

end GraphClient.Digest.Sha256
