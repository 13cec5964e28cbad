/-!
# A seeded random generator

The sampler draws from PCG64: a linear congruential generator on 128-bit words whose output
folds the high half onto the low half and rotates the result by the top six bits (XSL-RR). Its
state and increment come from the seed by a seed sequence: the seed is cut into 32-bit words
(several seeds given together give their words one after another), hashed into a pool of four
words, the pool words are mixed with each other, and four 64-bit words
are drawn from the pool by a second hash. Uniform doubles in `[0, 1)` take the top 53 bits of an
output.

All arithmetic is on natural numbers reduced modulo `2 ^ 32`, `2 ^ 64` or `2 ^ 128`.
-/

namespace Exploration

namespace SeedSequence

/-- Reduction to a 32-bit word. -/
def word (n : Nat) : Nat := n % Nat.pow 2 32

theorem word_lt (n : Nat) : word n < Nat.pow 2 32 := Nat.mod_lt _ (by decide)

/-- The seed as 32-bit words, least significant first; zero is one zero word. -/
def words (seed : Nat) : List Nat :=
  if seed = 0 then [0]
  else
    let rec go (n : Nat) (fuel : Nat) : List Nat :=
      match fuel with
      | 0 => []
      | fuel + 1 => if n = 0 then [] else word n :: go (n / Nat.pow 2 32) fuel
    go seed (seed.log2 / 32 + 1)

/-- One step of the entropy hash: returns the hashed value and the next hash constant. -/
def hashMix (value hashConst : Nat) : Nat × Nat :=
  let v := word (value ^^^ hashConst)
  let h := word (hashConst * 0x931e8875)
  let v := word (v * h)
  (v ^^^ (v >>> 16), h)

/-- Mixes a pool word with a hashed word. -/
def mix (x y : Nat) : Nat :=
  let r := word (word (0xca01f9dd * x) + Nat.pow 2 32 - word (0x4973f715 * y))
  r ^^^ (r >>> 16)

/-- The pool of four words made from the seed words. -/
def pool (entropy : List Nat) : List Nat := Id.run do
  let mut h := 0x43b0d7e5
  let mut m : Array Nat := #[]
  for i in [0:4] do
    let (v, h') := hashMix (entropy.getD i 0) h
    h := h'
    m := m.push v
  for src in [0:4] do
    for dst in [0:4] do
      if src != dst then
        let (v, h') := hashMix (m.getD src 0) h
        h := h'
        m := m.set! dst (mix (m.getD dst 0) v)
  for src in [4:entropy.length] do
    for dst in [0:4] do
      let (v, h') := hashMix (entropy.getD src 0) h
      h := h'
      m := m.set! dst (mix (m.getD dst 0) v)
  return m.toList

/-- `n` 32-bit words drawn from a pool. -/
def draw (p : List Nat) (n : Nat) : List Nat := Id.run do
  let mut h := 0x8b51f9dd
  let mut out : Array Nat := #[]
  for i in [0:n] do
    let v := word (p.getD (i % 4) 0 ^^^ h)
    h := word (h * 0x58f38ded)
    let v := word (v * h)
    out := out.push (v ^^^ (v >>> 16))
  return out.toList

/-- `n` 64-bit words drawn from the pool of some entropy words, each from two 32-bit words, low
first. -/
def state64 (entropy : List Nat) (n : Nat) : List Nat :=
  let ws := draw (pool entropy) (2 * n)
  (List.range n).map fun i => ws.getD (2 * i) 0 + Nat.pow 2 32 * ws.getD (2 * i + 1) 0

end SeedSequence

/-- The state of a PCG64 generator: a 128-bit state and an odd 128-bit increment. -/
structure Pcg64 where
  state : Nat
  inc : Nat
  deriving Inhabited, Repr

namespace Pcg64

/-- The multiplier of the 128-bit generator. -/
def multiplier : Nat := 0x2360ED051FC65DA44385DF649FCCF645

/-- One step of the linear congruential generator. -/
def step (g : Pcg64) : Pcg64 := { g with state := (g.state * multiplier + g.inc) % Nat.pow 2 128 }

/-- A stepped state is a 128-bit word. -/
theorem step_state_lt (g : Pcg64) : g.step.state < Nat.pow 2 128 := Nat.mod_lt _ (by decide)

/-- The generator started from an initial state and a sequence number. -/
def ofParts (initState initSeq : Nat) : Pcg64 :=
  let g : Pcg64 := { state := 0, inc := (initSeq * 2 + 1) % Nat.pow 2 128 }
  let g := g.step
  let g := { g with state := (g.state + initState) % Nat.pow 2 128 }
  g.step

/-- The generator of some 32-bit entropy words, through the seed sequence. Missing words count
as zero, so no words at all start the generator as the seed zero does. -/
def ofEntropy (entropy : List Nat) : Pcg64 :=
  match SeedSequence.state64 entropy 4 with
  | [s0, s1, i0, i1] => ofParts (s0 * Nat.pow 2 64 + s1) (i0 * Nat.pow 2 64 + i1)
  | _ => ofParts 0 0

/-- The generator of a seed: the entropy of its 32-bit words. -/
def ofSeed (seed : Nat) : Pcg64 := ofEntropy (SeedSequence.words seed)

/-- Rotates a 64-bit word right. -/
def rotr (x r : Nat) : Nat := ((x >>> r) ||| (x <<< ((64 - r) % 64))) % Nat.pow 2 64

theorem rotr_lt (x r : Nat) : rotr x r < Nat.pow 2 64 := Nat.mod_lt _ (by decide)

/-- The next 64-bit output: the state is stepped, then folded and rotated. -/
def next (g : Pcg64) : Nat × Pcg64 :=
  let g := g.step
  let hi := g.state >>> 64
  let lo := g.state % Nat.pow 2 64
  (rotr (hi ^^^ lo) (g.state >>> 122), g)

/-- A uniform double in `[0, 1)`: the top 53 bits of an output over `2 ^ 53`. -/
def uniform (g : Pcg64) : Float × Pcg64 :=
  let (x, g) := g.next
  (Float.ofNat (x >>> 11) * (1.0 / 9007199254740992.0), g)

end Pcg64

end Exploration
