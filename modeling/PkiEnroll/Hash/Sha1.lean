import PkiEnroll.Hash.Function

namespace PkiEnroll.Hash

namespace Sha1

structure State where
  a : UInt32
  b : UInt32
  c : UInt32
  d : UInt32
  e : UInt32

def rotl (x n : UInt32) : UInt32 := (x <<< n) ||| (x >>> (32 - n))

def initial : State := ⟨0x67452301, 0xefcdab89, 0x98badcfe, 0x10325476, 0xc3d2e1f0⟩

/-- The eighty words of a block; those found so far come last first. -/
def extend (words : List UInt32) : List UInt32 :=
  rotl (words.getD 2 0 ^^^ words.getD 7 0 ^^^ words.getD 13 0 ^^^ words.getD 15 0) 1 :: words

def schedule (block : Bytes) : List UInt32 :=
  let words := (Bytes.pieces 4 block).map fun w => UInt32.ofNat (Bytes.toNat w)
  ((List.range 64).foldl (fun ws _ => extend ws) words.reverse).reverse

def mix (t : Nat) (b c d : UInt32) : UInt32 :=
  if t < 20 then ((b &&& c) ||| (~~~b &&& d)) + 0x5a827999
  else if t < 40 then (b ^^^ c ^^^ d) + 0x6ed9eba1
  else if t < 60 then ((b &&& c) ||| (b &&& d) ||| (c &&& d)) + 0x8f1bbcdc
  else (b ^^^ c ^^^ d) + 0xca62c1d6

def round (s : State) (w : UInt32 × Nat) : State :=
  ⟨rotl s.a 5 + mix w.2 s.b s.c s.d + s.e + w.1, s.a, rotl s.b 30, s.c, s.d⟩

def compress (s : State) (block : Bytes) : State :=
  let t := (schedule block).zipIdx.foldl round s
  ⟨s.a + t.a, s.b + t.b, s.c + t.c, s.d + t.d, s.e + t.e⟩

def digest (message : Bytes) : Bytes :=
  let s := (Bytes.pieces 64 (pad 64 8 message)).foldl compress initial
  [s.a, s.b, s.c, s.d, s.e].flatMap fun w => Bytes.ofNat 4 w.toNat

end Sha1

def sha1 : HashFunction := ⟨64, Sha1.digest⟩

end PkiEnroll.Hash
