import HyperPlotter.Poc.Shabal

/-!
# What one nonce is

The PoC2 content of a nonce as a function of its seed, with no buffer, lane or
launch in it: a backwards chain of 8192 hashes over a capped message, one hash
of everything, its exclusive or over the chain, and the pairing of mirrored
hashes into scoops. Both plotters are compared with this.
-/

namespace HyperPlotter.Poc

open Foundation

/-- The number of hashes of a nonce. -/
def hashCount : Nat := 8192

/-- `HASH_CAP` in words. -/
def capWords : Nat := 1024

/-- Plot id and nonce in network order, as little-endian words. -/
def seedWords (plotId nonce : BitVec 64) : List Word :=
  [lowWord (htonUll plotId), highWord (htonUll plotId),
    lowWord (htonUll nonce), highWord (htonUll nonce)]

/-- The words of the last `n` hashes. Each hash covers at most `capWords` words
of what follows it. -/
def chain (seed : List Word) : Nat → List Word
  | 0 => []
  | n + 1 => (shabal256 ((chain seed n ++ seed).take capWords)).toList ++ chain seed n

/-- The hash of the whole nonce and its seed. -/
def finalHash (seed : List Word) : Digest := shabal256 (chain seed hashCount ++ seed)

/-- Word `j` of the nonce before the scoops are paired. -/
def plotWord (seed : List Word) (j : Nat) : Word :=
  (chain seed hashCount).getD j 0 ^^^ (finalHash seed).getD (j % 8) 0

/-- Word `w` of scoop `c`: hash `2c`, then the mirrored hash `8192 - (2c + 1)`. -/
def scoopWord (plotId nonce : BitVec 64) (c w : Nat) : Word :=
  if w < 8 then plotWord (seedWords plotId nonce) (8 * (2 * c) + w)
  else plotWord (seedWords plotId nonce) (8 * (8192 - (2 * c + 1)) + (w - 8))

/-- Byte `b` of scoop `c` of a nonce. -/
def scoopByte (plotId nonce : BitVec 64) (c b : Nat) : Byte :=
  Word.byte (scoopWord plotId nonce c (b / 4)) (b % 4)

@[simp] theorem seedWords_length (plotId nonce : BitVec 64) :
    (seedWords plotId nonce).length = 4 := rfl

@[simp] theorem chain_zero (seed : List Word) : chain seed 0 = [] := rfl

@[simp] theorem chain_length (seed : List Word) (n : Nat) : (chain seed n).length = 8 * n := by
  induction n with
  | zero => rfl
  | succ n ih =>
      rw [chain, List.length_append, ih, Vector.length_toList]
      omega

/-- The digest the chain puts in front of its last `n` hashes. -/
def nextHash (seed : List Word) (n : Nat) : Digest :=
  shabal256 ((chain seed n ++ seed).take capWords)

private theorem getD_toList_append (digest : Digest) (rest : List Word) (j : Nat) :
    (digest.toList ++ rest).getD j 0 =
      if j < 8 then digest.getD j 0 else rest.getD (j - 8) 0 := by
  have length : digest.toList.length = 8 := Vector.length_toList
  rw [List.getD_eq_getElem?_getD]
  by_cases head : j < 8
  · rw [if_pos head, List.getElem?_append_left (by omega)]
    simp [head, Vector.getD]
  · rw [if_neg head, List.getElem?_append_right (by omega), length, ← List.getD_eq_getElem?_getD]

/-- A longer chain is its newest hash in front of the shorter chain. -/
theorem chain_succ_getD (seed : List Word) (n j : Nat) :
    (chain seed (n + 1)).getD j 0 =
      if j < 8 then (nextHash seed n).getD j 0 else (chain seed n).getD (j - 8) 0 :=
  getD_toList_append _ _ j

/-- See `chain_succ_getD`; the seed stays at the end. -/
theorem chain_succ_append_getD (seed : List Word) (n j : Nat) :
    (chain seed (n + 1) ++ seed).getD j 0 =
      if j < 8 then (nextHash seed n).getD j 0 else (chain seed n ++ seed).getD (j - 8) 0 := by
  rw [chain, List.append_assoc]
  exact getD_toList_append _ _ j

-- `chain_succ_getD` says what a chain is; unfolding 8192 hashes has no use in a goal.
attribute [irreducible] chain

end HyperPlotter.Poc
