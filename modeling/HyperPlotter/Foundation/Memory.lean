import Mathlib.Data.BitVec

/-!
# Little-endian byte memory

A memory is the byte at every signed offset from one base pointer, so that a
pointer which was moved outside its allocation still has a meaning. Words are
addressed by their 32-bit index, which is how the code indexes a byte buffer
cast to a word pointer.
-/

namespace HyperPlotter.Foundation

/-- One byte. -/
abbrev Byte := BitVec 8

/-- One 32-bit machine word. -/
abbrev Word := BitVec 32

/-- The bytes around a base pointer. -/
abbrev Memory := Int → Byte

/-- Byte `k` of a word, least significant first. -/
def Word.byte (v : Word) (k : Nat) : Byte := v.extractLsb' (8 * k) 8

/-- The word whose bytes are the arguments, least significant first. -/
def Word.ofBytes (b₀ b₁ b₂ b₃ : Byte) : Word := b₃ ++ b₂ ++ b₁ ++ b₀

/-- A word is recovered from its four bytes. -/
@[simp] theorem Word.ofBytes_byte (v : Word) :
    Word.ofBytes (Word.byte v 0) (Word.byte v 1) (Word.byte v 2) (Word.byte v 3) = v := by
  unfold Word.ofBytes Word.byte
  ext i bound
  simp only [BitVec.getElem_append, BitVec.getElem_extractLsb']
  grind

/-- Byte-wise exclusive or is word-wise exclusive or. -/
theorem Word.ofBytes_xor (a₀ a₁ a₂ a₃ b₀ b₁ b₂ b₃ : Byte) :
    Word.ofBytes (a₀ ^^^ b₀) (a₁ ^^^ b₁) (a₂ ^^^ b₂) (a₃ ^^^ b₃) =
      Word.ofBytes a₀ a₁ a₂ a₃ ^^^ Word.ofBytes b₀ b₁ b₂ b₃ := by
  unfold Word.ofBytes
  rw [BitVec.xor_append, BitVec.xor_append, BitVec.xor_append]

/-- Byte `k` of a word made of four bytes. -/
theorem Word.byte_ofBytes (b : Nat → Byte) {k : Nat} (bound : k < 4) :
    Word.byte (Word.ofBytes (b 0) (b 1) (b 2) (b 3)) k = b k := by
  have cases : k = 0 ∨ k = 1 ∨ k = 2 ∨ k = 3 := by omega
  unfold Word.byte Word.ofBytes
  rcases cases with rfl | rfl | rfl | rfl <;>
  · ext i small
    simp only [BitVec.getElem_extractLsb', BitVec.getLsbD_append]
    grind

/-- The low and the high half of a 64-bit value. -/
def lowWord (v : BitVec 64) : Word := v.extractLsb' 0 32

/-- See `lowWord`. -/
def highWord (v : BitVec 64) : Word := v.extractLsb' 32 32

namespace Memory

/-- Store a byte at byte offset `i`. -/
def write8 (m : Memory) (i : Int) (v : Byte) : Memory := fun a => if a = i then v else m a

/-- The byte just stored. -/
@[simp] theorem write8_same (m : Memory) (i : Int) (v : Byte) : m.write8 i v i = v := if_pos rfl

/-- A byte elsewhere. -/
theorem write8_of_ne (m : Memory) {i a : Int} (v : Byte) (differ : a ≠ i) :
    m.write8 i v a = m a :=
  if_neg differ

/-- Load the word at word index `i`. -/
def read32 (m : Memory) (i : Int) : Word :=
  Word.ofBytes (m (4 * i)) (m (4 * i + 1)) (m (4 * i + 2)) (m (4 * i + 3))

/-- Store a word at word index `i`. -/
def write32 (m : Memory) (i : Int) (v : Word) : Memory := fun a =>
  if a / 4 = i then Word.byte v (a % 4).toNat else m a

/-- Load the 64-bit value at byte offset `addr`. -/
def read64 (m : Memory) (addr : Int) : BitVec 64 :=
  m (addr + 7) ++ m (addr + 6) ++ m (addr + 5) ++ m (addr + 4) ++
    m (addr + 3) ++ m (addr + 2) ++ m (addr + 1) ++ m addr

/-- Store a 64-bit value at byte offset `addr`. -/
def write64 (m : Memory) (addr : Int) (v : BitVec 64) : Memory := fun a =>
  if addr ≤ a ∧ a < addr + 8 then v.extractLsb' (8 * (a - addr).toNat) 8 else m a

/-- `memcpy`: `n` bytes from `source + start` to `m + des`. -/
def copy (m : Memory) (des : Int) (source : Memory) (start : Int) (n : Nat) : Memory := fun a =>
  if des ≤ a ∧ a < des + n then source (start + (a - des)) else m a

/-- `memset` with zero. -/
def zero (m : Memory) (des : Int) (n : Nat) : Memory := fun a =>
  if des ≤ a ∧ a < des + n then 0 else m a

/-- A byte `copy` overwrites. -/
theorem copy_inside (m source : Memory) {des a : Int} (start : Int) {n : Nat}
    (inside : des ≤ a ∧ a < des + n) : m.copy des source start n a = source (start + (a - des)) :=
  if_pos inside

/-- A byte `copy` leaves alone. -/
theorem copy_outside (m source : Memory) {des a : Int} (start : Int) {n : Nat}
    (outside : ¬(des ≤ a ∧ a < des + n)) : m.copy des source start n a = m a :=
  if_neg outside

/-- A byte `zero` clears. -/
theorem zero_inside (m : Memory) {des a : Int} {n : Nat} (inside : des ≤ a ∧ a < des + n) :
    m.zero des n a = 0 :=
  if_pos inside

/-- A byte `zero` leaves alone. -/
theorem zero_outside (m : Memory) {des a : Int} {n : Nat} (outside : ¬(des ≤ a ∧ a < des + n)) :
    m.zero des n a = m a :=
  if_neg outside

/-- A word is determined by its four bytes. -/
theorem read32_congr {m m' : Memory} {i j : Int}
    (same : ∀ k : Int, 0 ≤ k → k < 4 → m (4 * i + k) = m' (4 * j + k)) :
    m.read32 i = m'.read32 j := by
  have b₀ := same 0 (by omega) (by omega)
  have b₁ := same 1 (by omega) (by omega)
  have b₂ := same 2 (by omega) (by omega)
  have b₃ := same 3 (by omega) (by omega)
  rw [Int.add_zero, Int.add_zero] at b₀
  unfold read32
  rw [b₀, b₁, b₂, b₃]

/-- Byte `k` of a loaded word is the byte in memory. -/
theorem byte_read32 (m : Memory) (i : Int) {k : Nat} (bound : k < 4) :
    Word.byte (m.read32 i) k = m (4 * i + k) := by
  have bytes := Word.byte_ofBytes (fun j => m (4 * i + (j : Int))) bound
  simpa [read32] using bytes

/-- Two memories with the same words on a range hold the same bytes there. -/
theorem byte_eq_of_read32 {m m' : Memory} {i j : Int} (same : m.read32 i = m'.read32 j)
    {k : Int} (lower : 0 ≤ k) (upper : k < 4) : m (4 * i + k) = m' (4 * j + k) := by
  obtain ⟨n, rfl⟩ := Int.eq_ofNat_of_zero_le lower
  have bound : n < 4 := by omega
  rw [← byte_read32 m i bound, ← byte_read32 m' j bound, same]

/-- A load sees the last store des its index and no other store. -/
theorem read32_write32 (m : Memory) (i j : Int) (v : Word) :
    (m.write32 i v).read32 j = if j = i then v else m.read32 j := by
  have quotient : ∀ k : Int, 0 ≤ k → k < 4 → (4 * j + k) / 4 = j := by omega
  have remainder : ∀ k : Int, 0 ≤ k → k < 4 → (4 * j + k) % 4 = k := by omega
  have q₀ : (4 * j) / 4 = j := by omega
  have r₀ : (4 * j) % 4 = 0 := by omega
  unfold read32 write32
  rw [quotient 1 (by omega) (by omega), quotient 2 (by omega) (by omega),
    quotient 3 (by omega) (by omega), remainder 1 (by omega) (by omega),
    remainder 2 (by omega) (by omega), remainder 3 (by omega) (by omega), q₀, r₀]
  by_cases hit : j = i
  · simp only [hit, if_true]
    exact Word.ofBytes_byte v
  · simp only [hit, if_false]

/-- A load that hits the last store. -/
@[simp] theorem read32_write32_same (m : Memory) (i : Int) (v : Word) :
    (m.write32 i v).read32 i = v := by
  rw [read32_write32, if_pos rfl]

/-- A load that misses the last store. -/
theorem read32_write32_of_ne (m : Memory) {i j : Int} (v : Word) (differ : j ≠ i) :
    (m.write32 i v).read32 j = m.read32 j := by
  rw [read32_write32, if_neg differ]

/-- `n` word stores one after the other, store `w` des `index w`. -/
def storeWords (m : Memory) (index : Nat → Int) (value : Nat → Word) : Nat → Memory
  | 0 => m
  | n + 1 => (storeWords m index value n).write32 (index n) (value n)

/-- Only the values of the stores made count. -/
theorem storeWords_congr (m : Memory) (index : Nat → Int) {value value' : Nat → Word} {n : Nat}
    (same : ∀ w, w < n → value w = value' w) :
    m.storeWords index value n = m.storeWords index value' n := by
  induction n with
  | zero => rfl
  | succ n ih =>
      rw [storeWords, storeWords, ih fun w bound => same w (Nat.lt_succ_of_lt bound),
        same n (Nat.lt_succ_self n)]

/-- A load from an index outside a series of stores. -/
theorem read32_storeWords_of_ne (m : Memory) {index : Nat → Int} (value : Nat → Word) {n : Nat}
    {j : Int} (differ : ∀ w, w < n → j ≠ index w) :
    (m.storeWords index value n).read32 j = m.read32 j := by
  induction n with
  | zero => rfl
  | succ n ih =>
      rw [storeWords, read32_write32_of_ne _ _ (differ n (by omega))]
      exact ih fun w bound => differ w (by omega)

/-- A load from one of a series of stores des different indices. -/
theorem read32_storeWords (m : Memory) (index : Nat → Int) (value : Nat → Word) {n w : Nat}
    (injective : ∀ a b, a < n → b < n → index a = index b → a = b) (bound : w < n) :
    (m.storeWords index value n).read32 (index w) = value w := by
  induction n with
  | zero => omega
  | succ n ih =>
      rw [storeWords]
      by_cases last : w = n
      · subst last
        exact read32_write32_same _ _ _
      · have differ : index w ≠ index n := fun same =>
          last (injective w n bound (by omega) same)
        rw [read32_write32_of_ne _ _ differ]
        exact ih (fun a b first second => injective a b (by omega) (by omega)) (by omega)

/-- `n` exclusive ors into memory one after the other, number `w` at `index w`. -/
def xorWords (m : Memory) (index : Nat → Int) (value : Nat → Word) : Nat → Memory
  | 0 => m
  | n + 1 =>
    let m := xorWords m index value n
    m.write32 (index n) (m.read32 (index n) ^^^ value n)

/-- A load from an index outside a series of exclusive ors. -/
theorem read32_xorWords_of_ne (m : Memory) {index : Nat → Int} (value : Nat → Word) {n : Nat}
    {j : Int} (differ : ∀ w, w < n → j ≠ index w) :
    (m.xorWords index value n).read32 j = m.read32 j := by
  induction n with
  | zero => rfl
  | succ n ih =>
      rw [xorWords, read32_write32_of_ne _ _ (differ n (by omega))]
      exact ih fun w bound => differ w (by omega)

/-- A load from one of a series of exclusive ors into different indices. -/
theorem read32_xorWords (m : Memory) (index : Nat → Int) (value : Nat → Word) {n w : Nat}
    (injective : ∀ a b, a < n → b < n → index a = index b → a = b) (bound : w < n) :
    (m.xorWords index value n).read32 (index w) = m.read32 (index w) ^^^ value w := by
  induction n with
  | zero => omega
  | succ n ih =>
      rw [xorWords]
      by_cases last : w = n
      · subst last
        rw [read32_write32_same, read32_xorWords_of_ne]
        intro v small same
        have := injective w v bound (by omega) same
        omega
      · have differ : index w ≠ index n := fun same =>
          last (injective w n bound (by omega) same)
        rw [read32_write32_of_ne _ _ differ]
        exact ih (fun a b first second => injective a b (by omega) (by omega)) (by omega)

/-- A load from a word-aligned copy. -/
theorem read32_copy (m source : Memory) (des start : Int) (n : Nat) (j : Int) :
    (m.copy (4 * des) source (4 * start) (4 * n)).read32 j =
      if des ≤ j ∧ j < des + n then source.read32 (start + (j - des)) else m.read32 j := by
  by_cases inside : des ≤ j ∧ j < des + n
  · rw [if_pos inside]
    apply read32_congr
    intro k lower upper
    have hit : 4 * des ≤ 4 * j + k ∧ 4 * j + k < 4 * des + ((4 * n : Nat) : Int) := by omega
    unfold copy
    rw [if_pos hit]
    congr 1
    omega
  · rw [if_neg inside]
    apply read32_congr
    intro k lower upper
    have miss : ¬(4 * des ≤ 4 * j + k ∧ 4 * j + k < 4 * des + ((4 * n : Nat) : Int)) := by omega
    unfold copy
    rw [if_neg miss]

private theorem offset_sub (x k : Int) : x + k - x = k := by
  omega

/-- Loads around a 64-bit store at an even word index. -/
theorem read32_write64 (m : Memory) (i j : Int) (v : BitVec 64) :
    (m.write64 (4 * i) v).read32 j =
      if j = i then lowWord v else if j = i + 1 then highWord v else m.read32 j := by
  by_cases low : j = i
  · subst low
    rw [if_pos rfl]
    unfold read32 write64 lowWord Word.ofBytes
    simp only [show ∀ x : Int, x ≤ x ∧ x < x + 8 from by omega,
      show ∀ x : Int, x ≤ x + 1 ∧ x + 1 < x + 8 from by omega,
      show ∀ x : Int, x ≤ x + 2 ∧ x + 2 < x + 8 from by omega,
      show ∀ x : Int, x ≤ x + 3 ∧ x + 3 < x + 8 from by omega, and_self, if_true,
      Int.sub_self, offset_sub]
    ext b bound
    simp only [BitVec.getElem_append, BitVec.getElem_extractLsb']
    grind
  · rw [if_neg low]
    by_cases high : j = i + 1
    · subst high
      rw [if_pos rfl]
      have d₀ : 4 * (i + 1) = 4 * i + 4 := by omega
      unfold read32 write64 highWord Word.ofBytes
      simp only [d₀, Int.add_assoc, show ∀ x : Int, x ≤ x + 4 ∧ x + 4 < x + 8 from by omega,
        show ∀ x : Int, x ≤ x + (4 + 1) ∧ x + (4 + 1) < x + 8 from by omega,
        show ∀ x : Int, x ≤ x + (4 + 2) ∧ x + (4 + 2) < x + 8 from by omega,
        show ∀ x : Int, x ≤ x + (4 + 3) ∧ x + (4 + 3) < x + 8 from by omega, and_self, if_true,
        offset_sub]
      ext b bound
      simp only [BitVec.getElem_append, BitVec.getElem_extractLsb']
      grind
    · rw [if_neg high]
      apply read32_congr
      intro k lower upper
      have miss : ¬(4 * i ≤ 4 * j + k ∧ 4 * j + k < 4 * i + 8) := by omega
      unfold write64
      rw [if_neg miss]

/-- A 64-bit load is the pair of its words. -/
theorem lowWord_read64 (m : Memory) (i : Int) : lowWord (m.read64 (4 * i)) = m.read32 i := by
  unfold lowWord read64 read32 Word.ofBytes
  ext b bound
  simp only [BitVec.getElem_extractLsb', BitVec.getLsbD_append]
  grind

/-- See `lowWord_read64`. -/
theorem highWord_read64 (m : Memory) (i : Int) :
    highWord (m.read64 (4 * i)) = m.read32 (i + 1) := by
  have d₀ : 4 * (i + 1) = 4 * i + 4 := by omega
  unfold highWord read64 read32 Word.ofBytes
  rw [d₀]
  simp only [Int.add_assoc]
  ext b bound
  simp only [BitVec.getElem_extractLsb', BitVec.getLsbD_append]
  grind

end Memory
end HyperPlotter.Foundation
