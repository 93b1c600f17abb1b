import ChunkedFile.Hash.Block

/-!
# SHA-1

Five words, 80 rounds a block, all numbers with the highest byte first.
-/

namespace ChunkedFile.Sha1

/-- The chaining words. -/
structure State where
  a : UInt32
  b : UInt32
  c : UInt32
  d : UInt32
  e : UInt32

/-- The words of all rounds: those of the block, then each from four earlier ones. -/
def schedule (block : ByteArray) : Array UInt32 :=
  let words : Array UInt32 := (Array.range 16).map fun i => wordHighFirst block (4 * i)
  (List.range 64).foldl
    (fun words i =>
      words.push (rotateLeft
        (words.getD (i + 13) 0 ^^^ words.getD (i + 8) 0 ^^^ words.getD (i + 2) 0 ^^^
          words.getD i 0) 1))
    words

/-- The mixing function and the constant of a round. -/
def mix (round : Nat) (s : State) : UInt32 :=
  if round < 20 then ((s.b &&& s.c) ||| (~~~s.b &&& s.d)) + 0x5a827999
  else if round < 40 then (s.b ^^^ s.c ^^^ s.d) + 0x6ed9eba1
  else if round < 60 then ((s.b &&& s.c) ||| (s.b &&& s.d) ||| (s.c &&& s.d)) + 0x8f1bbcdc
  else (s.b ^^^ s.c ^^^ s.d) + 0xca62c1d6

/-- One round. -/
def step (words : Array UInt32) (s : State) (round : Nat) : State :=
  ⟨rotateLeft s.a 5 + mix round s + s.e + words.getD round 0, s.a, rotateLeft s.b 30, s.c, s.d⟩

/-- All rounds of a block, added to the words before. -/
def compress (s : State) (block : ByteArray) : State :=
  let t := (List.range 80).foldl (step (schedule block)) s
  ⟨s.a + t.a, s.b + t.b, s.c + t.c, s.d + t.d, s.e + t.e⟩

/-- SHA-1 as a hash over blocks. -/
def hash : BlockHash where
  State := State
  initial := ⟨0x67452301, 0xefcdab89, 0x98badcfe, 0x10325476, 0xc3d2e1f0⟩
  compress := compress
  lengthBytes := fun n => (bytesLowFirst n).reverse
  output := fun s => [s.a, s.b, s.c, s.d, s.e].flatMap fun w => (wordBytesLowFirst w).reverse

end ChunkedFile.Sha1
