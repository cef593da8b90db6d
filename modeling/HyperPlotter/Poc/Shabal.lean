import HyperPlotter.Foundation.BlockStream
import HyperPlotter.Poc.Base

/-!
# Shabal-256

The permutation macros are the same text in `contrib/shabal/sph_shabal.cpp` and
in the kernel, so they are defined once. The streaming front end
(`shabal_core`, `shabal_close`) is only on the CPU side. `shabal256` gives the
digest of a whole message of words; `shabal256_close_core` says the streaming
front end computes it.
-/

namespace HyperPlotter.Poc

open Foundation

/-- The local variables `A00..A0B`, `B0..BF`, `C0..CF`, `Wlow` and `Whigh`. -/
structure ShabalState where
  A : Vector Word 12
  B : Vector Word 16
  C : Vector Word 16
  wlow : Word
  whigh : Word

/-- The message words `M0..MF`. -/
abbrev MessageBlock := Vector Word 16

/-- The output words `B8..BF`. -/
abbrev Digest := Vector Word 8

namespace Shabal

/-- `A_init_256`. -/
def aInit256 : Vector Word 12 :=
  #v[0x52F84552, 0xE54B7999, 0x2D8EE3EC, 0xB9645191, 0xE0078B86, 0xBB7C44C9,
    0xD2B5C1CA, 0xB0D2EB8C, 0x14CE5A45, 0x22AF50DC, 0xEFFDBC6B, 0xEB21B74A]

/-- `B_init_256`. -/
def bInit256 : Vector Word 16 :=
  #v[0xB555C6EE, 0x3E710596, 0xA72A652F, 0x9301515F, 0xDA28C1FA, 0x696FD868,
    0x9CB6BF72, 0x0AFE4002, 0xA6E03615, 0x5138C1D4, 0xBE216306, 0xB38B8890,
    0x3EA8B96B, 0x3299ACE4, 0x30924DD4, 0x55CB34A5]

/-- `C_init_256`. -/
def cInit256 : Vector Word 16 :=
  #v[0xB405F031, 0xC4233EBA, 0xB3733979, 0xC0DD9D55, 0xC51C28AE, 0xA327B8E1,
    0x56C56167, 0xED614433, 0x88B59D60, 0x60E2CEBA, 0x758B4B8B, 0x83E82A7F,
    0xBC968828, 0xE6E00BF7, 0xBA839E55, 0x9B491C60]

/-- The state `shabal_init` sets up for 256 bits; the kernel starts every hash
from the same values. -/
def initial : ShabalState := ⟨aInit256, bInit256, cInit256, 1, 0⟩

/-- `INPUT_BLOCK_ADD`. -/
def inputBlockAdd (s : ShabalState) (M : MessageBlock) : ShabalState :=
  { s with B := Vector.zipWith (· + ·) s.B M }

/-- `INPUT_BLOCK_SUB`. -/
def inputBlockSub (s : ShabalState) (M : MessageBlock) : ShabalState :=
  { s with C := Vector.zipWith (· - ·) s.C M }

/-- `XOR_W`. -/
def xorW (s : ShabalState) : ShabalState :=
  { s with A := (s.A.set 0 (s.A[0] ^^^ s.wlow)).set 1 (s.A[1] ^^^ s.whigh) }

/-- `SWAP_BC`. -/
def swapBC (s : ShabalState) : ShabalState :=
  { s with B := s.C, C := s.B }

/-- `INCR_W`. -/
def incrW (s : ShabalState) : ShabalState :=
  { s with
    wlow := s.wlow + 1
    whigh := if s.wlow + 1 = 0 then s.whigh + 1 else s.whigh }

/-- `PERM_ELT(xa0, xa1, xb0, xb1, xb2, xb3, xc, xm)`. -/
def permElt (s : ShabalState) (xa0 xa1 : Fin 12) (xb0 xb1 xb2 xb3 xc : Fin 16)
    (xm : Word) : ShabalState :=
  let a := ((s.A[xa0] ^^^ (((s.A[xa1] <<< 15) ||| (s.A[xa1] >>> 17)) * 5) ^^^ s.C[xc]) * 3)
    ^^^ s.B[xb1] ^^^ (s.B[xb2] &&& ~~~s.B[xb3]) ^^^ xm
  let b := ~~~(((s.B[xb0] <<< 1) ||| (s.B[xb0] >>> 31)) ^^^ a)
  { s with A := s.A.set xa0 a, B := s.B.set xb0 b }

/-- `PERM_STEP_0`, `PERM_STEP_1` and `PERM_STEP_2`. Line `i` of step `j` names
`A[i + 16j]`, its predecessor, `B[i]`, `B[i + O1]`, `B[i + O2]`, `B[i + O3]`,
`C[8 - i]` and `M[i]`, all modulo the lengths. -/
def permStep (j : Nat) (M : MessageBlock) (s : ShabalState) : ShabalState :=
  (List.finRange 16).foldl (fun s (i : Fin 16) =>
    permElt s (Fin.ofNat 12 (i.val + 16 * j)) (Fin.ofNat 12 (i.val + 16 * j + 11))
      i (Fin.ofNat 16 (i.val + 13)) (Fin.ofNat 16 (i.val + 9)) (Fin.ofNat 16 (i.val + 6))
      (Fin.ofNat 16 (24 - i.val)) M[i]) s

/-- The last lines of `APPLY_P`: `A0B += C6`, `A0A += C5` and so on downwards,
36 lines in all. -/
def addC (s : ShabalState) : ShabalState :=
  (List.range 36).foldl (fun s k =>
    let a := Fin.ofNat 12 (47 - k)
    let c := Fin.ofNat 16 (38 - k)
    { s with A := s.A.set a (s.A[a] + s.C[c]) }) s

/-- `APPLY_P`. -/
def applyP (s : ShabalState) (M : MessageBlock) : ShabalState :=
  let s := { s with B := s.B.map fun (b : Word) => (b <<< 17) ||| (b >>> 15) }
  addC (permStep 2 M (permStep 1 M (permStep 0 M s)))

/-- The macro sequence both sides run on every full message block. -/
def inputBlock (s : ShabalState) (M : MessageBlock) : ShabalState :=
  incrW (swapBC (inputBlockSub (applyP (xorW (inputBlockAdd s M)) M) M))

/-- The macro sequence both sides run on the padded last block, then the
output words. -/
def closeBlock (s : ShabalState) (M : MessageBlock) : Digest :=
  let s := applyP (xorW (inputBlockAdd s M)) M
  let s := (List.range 3).foldl (fun s _ => applyP (xorW (swapBC s)) M) s
  Vector.ofFn fun w : Fin 8 => s.B[w.val + 8]

end Shabal

/-! ## Digest of a word message -/

/-- Block `t` of a list of words, with zeros after its end. -/
def blockOf (words : List Word) (t : Nat) : MessageBlock :=
  Vector.ofFn fun w : Fin 16 => words.getD (16 * t + w) 0

/-- The state after `n` full blocks of a word message. -/
def absorbBlocks (words : List Word) : Nat → ShabalState
  | 0 => Shabal.initial
  | n + 1 => Shabal.inputBlock (absorbBlocks words n) (blockOf words n)

/-- Shabal-256 of a message of 32-bit words: full blocks, then the rest of the
message with the marker `0x80` and zeros. -/
def shabal256 (message : List Word) : Digest :=
  let padded := message ++ [0x80]
  Shabal.closeBlock (absorbBlocks padded (message.length / 16))
    (blockOf padded (message.length / 16))

/-- See `shabal256`. -/
theorem shabal256_eq (message : List Word) :
    shabal256 message = Shabal.closeBlock (absorbBlocks (message ++ [0x80]) (message.length / 16))
      (blockOf (message ++ [0x80]) (message.length / 16)) := rfl

/-! ## The streaming front end -/

/-- `sph_shabal256_context`. -/
structure ShabalContext where
  state : ShabalState
  buf : Memory
  ptr : Nat

/-- `shabal_init` for 256 bits; it leaves `buf` alone. -/
def shabalInit (cc : ShabalContext) : ShabalContext :=
  { cc with state := Shabal.initial, ptr := 0 }

/-- `DECODE_BLOCK`. -/
def decodeBlock (buf : Memory) : MessageBlock :=
  Vector.ofFn fun w : Fin 16 => buf.read32 w

/-- The `while (len > 0)` loop of `shabal_core`; a round takes at least one
byte, so `fuel` rounds are enough for `len ≤ fuel`. -/
def shabalCoreLoop : Nat → ShabalContext → Memory → Int → Nat → ShabalContext
  | 0, cc, _, _, _ => cc
  | fuel + 1, cc, data, pos, len =>
    if len > 0 then
      let clen := if 64 - cc.ptr > len then len else 64 - cc.ptr
      let buf := cc.buf.copy cc.ptr data pos clen
      let ptr := cc.ptr + clen
      if ptr = 64 then
        let cc := ⟨Shabal.inputBlock cc.state (decodeBlock buf), buf, 0⟩
        shabalCoreLoop fuel cc data (pos + clen) (len - clen)
      else
        shabalCoreLoop fuel ⟨cc.state, buf, ptr⟩ data (pos + clen) (len - clen)
    else cc

/-- `shabal_core` on `len` bytes from `data + pos`. -/
def shabalCore (cc : ShabalContext) (data : Memory) (pos : Int) (len : Nat) : ShabalContext :=
  if len < 64 - cc.ptr then
    { cc with buf := cc.buf.copy cc.ptr data pos len, ptr := cc.ptr + len }
  else
    shabalCoreLoop len cc data pos len

/-- `shabal_close` for 256 bits without extra bits: the digest words stored at
`dst + des`, and the context `shabal_init` leaves. -/
def shabalClose (cc : ShabalContext) (dst : Memory) (des : Int) : ShabalContext × Memory :=
  let buf : Memory := fun a => if a = cc.ptr then 0x80 else cc.buf a
  let buf := Memory.zero buf (cc.ptr + 1) (64 - (cc.ptr + 1))
  let digest := Shabal.closeBlock cc.state (decodeBlock buf)
  let tmpOut := Memory.storeWords (fun _ => 0) (fun w => 8 + w) (digest.getD · 0) 8
  (shabalInit { cc with buf := buf }, dst.copy des tmpOut 32 32)

/-- One full block, as the streaming front end absorbs it. -/
def absorbBuffer (s : ShabalState) (buf : Memory) : ShabalState :=
  Shabal.inputBlock s (decodeBlock buf)

/-- `DECODE_BLOCK` reads the 64 bytes of the buffer only. -/
theorem decodeBlock_congr {left right : Memory}
    (same : ∀ i : Int, 0 ≤ i → i < 64 → left i = right i) :
    decodeBlock left = decodeBlock right := by
  unfold decodeBlock
  congr 1
  funext w
  apply Memory.read32_congr
  intro k lower upper
  have bound := w.isLt
  exact same _ (by omega) (by omega)

/-- Absorption reads the 64 bytes of the buffer only. -/
theorem absorbBuffer_local : BlockStream.Local 64 absorbBuffer := by
  intro state left right same
  unfold absorbBuffer
  rw [decodeBlock_congr same]

/-- A context which has taken in `count` bytes of `message`. -/
abbrev ShabalContext.Holds (cc : ShabalContext) (message : Memory) (count : Nat) : Prop :=
  BlockStream.Buffered 64 absorbBuffer Shabal.initial message count cc.state cc.buf cc.ptr

/-- The loop of `shabal_core` appends its input to the message. -/
theorem shabalCoreLoop_holds {message data : Memory} (fuel : Nat) :
    ∀ {cc : ShabalContext} {count len : Nat} {pos : Int}, cc.Holds message count →
      (∀ i : Int, 0 ≤ i → i < len → data (pos + i) = message (count + i)) → len ≤ fuel →
      (shabalCoreLoop fuel cc data pos len).Holds message (count + len) := by
  induction fuel with
  | zero =>
      intro cc count len pos holds same enough
      have none : len = 0 := by omega
      subst none
      exact holds
  | succ fuel ih =>
      intro cc count len pos holds same enough
      have room : cc.ptr < 64 := by
        rw [holds.ptr_eq]
        exact Nat.mod_lt _ (by omega)
      rw [shabalCoreLoop]
      by_cases more : len > 0
      · rw [if_pos more]
        -- `clen` fills the block or exhausts the input, whichever comes first.
        generalize chunk : (if 64 - cc.ptr > len then len else 64 - cc.ptr) = clen
        have clenLe : clen ≤ len ∧ 0 < clen ∧ cc.ptr + clen ≤ 64 := by
          split at chunk <;> omega
        have kept : ∀ i : Int, 0 ≤ i → i < cc.ptr →
            cc.buf.copy cc.ptr data pos clen i = cc.buf i := by
          intro i lower upper
          exact Memory.copy_outside _ _ _ (by omega)
        have added : ∀ i : Int, 0 ≤ i → i < clen →
            cc.buf.copy cc.ptr data pos clen (cc.ptr + i) = message (count + i) := by
          intro i lower upper
          rw [Memory.copy_inside _ _ _ (by omega), ← same i lower (by omega)]
          congr 1
          omega
        have rest : ∀ i : Int, 0 ≤ i → i < (len - clen : Nat) →
            data (pos + clen + i) = message ((count + clen : Nat) + i) := by
          intro i lower upper
          have shifted := same (clen + i) (by omega) (by omega)
          rw [Int.add_assoc, shifted]
          congr 1
          omega
        have total : count + clen + (len - clen) = count + len := by omega
        by_cases full : cc.ptr + clen = 64
        · simp only [if_pos full]
          rw [← total]
          refine ih ?_ rest (by omega)
          exact holds.fill_block (by omega) absorbBuffer_local full kept added
        · simp only [if_neg full]
          rw [← total]
          refine ih ?_ rest (by omega)
          exact holds.fill (by omega) kept added
      · rw [if_neg more]
        have none : len = 0 := by omega
        subst none
        exact holds

/-- `shabal_core` appends its input to the message. -/
theorem shabalCore_holds {message : Memory} {cc : ShabalContext} {count : Nat} (data : Memory)
    (pos : Int) (len : Nat) (holds : cc.Holds message count)
    (same : ∀ i : Int, 0 ≤ i → i < len → data (pos + i) = message (count + i)) :
    (shabalCore cc data pos len).Holds message (count + len) := by
  unfold shabalCore
  split
  · rename_i short
    refine holds.fill (by omega) ?_ ?_
    · intro i lower upper
      exact Memory.copy_outside _ _ _ (by omega)
    · intro i lower upper
      change cc.buf.copy cc.ptr data pos len (cc.ptr + i) = _
      rw [Memory.copy_inside _ _ _ (by omega), ← same i lower upper]
      congr 1
      omega
  · exact shabalCoreLoop_holds len holds same (Nat.le_refl _)

/-- Block `t` of a list of words laid out in memory. -/
theorem decodeBlock_eq_blockOf {words : List Word} {buf : Memory} {t : Nat}
    (same : ∀ w : Nat, w < 16 → buf.read32 w = words.getD (16 * t + w) 0) :
    decodeBlock buf = blockOf words t := by
  unfold decodeBlock blockOf
  congr 1
  funext w
  exact same w w.isLt

/-- Absorbing the bytes of a word message is absorbing its word blocks. -/
theorem absorbed_eq_absorbBlocks {words : List Word} {message : Memory} (n : Nat)
    (same : ∀ j : Nat, j < 16 * n → message.read32 j = words.getD j 0) :
    BlockStream.absorbed 64 absorbBuffer Shabal.initial message n = absorbBlocks words n := by
  induction n with
  | zero => rfl
  | succ n ih =>
      rw [BlockStream.absorbed, absorbBlocks, ih fun j bound => same j (by omega)]
      apply congrArg (Shabal.inputBlock _)
      apply decodeBlock_eq_blockOf
      intro w bound
      rw [← same (16 * n + w) (by omega)]
      apply Memory.read32_congr
      intro k lower upper
      congr 1
      omega

/-- The context a fresh hash starts from. -/
def ShabalContext.Fresh (cc : ShabalContext) : Prop := cc.state = Shabal.initial ∧ cc.ptr = 0

/-- The last block of a close: the buffered words, the marker, then zeros. -/
private theorem read32_marked (buf : Memory) {p w : Nat} (bound : w < 16) :
    (Memory.zero (fun a => if a = (4 * p : Nat) then 0x80 else buf a) ((4 * p : Nat) + 1)
      (64 - (4 * p + 1))).read32 w =
        if w < p then buf.read32 w else if w = p then 0x80 else 0 := by
  by_cases before : w < p
  · rw [if_pos before]
    apply Memory.read32_congr
    intro k lower upper
    rw [Memory.zero_outside _ (by omega)]
    exact if_neg (by omega)
  · rw [if_neg before]
    by_cases marker : w = p
    · subst marker
      rw [if_pos rfl]
      unfold Memory.read32
      rw [Memory.zero_outside _ (by omega), Memory.zero_inside _ (by omega),
        Memory.zero_inside _ (by omega), Memory.zero_inside _ (by omega), if_pos (by omega)]
      decide
    · rw [if_neg marker]
      unfold Memory.read32
      rw [Memory.zero_inside _ (by omega), Memory.zero_inside _ (by omega),
        Memory.zero_inside _ (by omega), Memory.zero_inside _ (by omega)]
      decide

/-- The digest `shabal_close` computes from a context holding `count` words. -/
theorem closeBlock_of_holds {cc : ShabalContext} {bytes : Memory} (message : List Word)
    (holds : cc.Holds bytes (4 * message.length))
    (same : ∀ j : Nat, (bound : j < message.length) → bytes.read32 j = message[j]) :
    Shabal.closeBlock cc.state (decodeBlock (Memory.zero
      (fun a => if a = cc.ptr then 0x80 else cc.buf a) (cc.ptr + 1) (64 - (cc.ptr + 1)))) =
        shabal256 message := by
  have blocks : 4 * message.length / 64 = message.length / 16 := by omega
  have ptrEq : cc.ptr = 4 * (message.length % 16) := by
    rw [holds.ptr_eq]
    omega
  have padded : ∀ j : Nat, j < message.length →
      bytes.read32 j = (message ++ [0x80]).getD j 0 := by
    intro j bound
    rw [same j bound]
    simp [List.getD, List.getElem?_append_left bound, List.getElem?_eq_getElem bound]
  rw [shabal256_eq]
  refine congr (congrArg Shabal.closeBlock ?_) ?_
  · rw [holds.state_eq, blocks]
    exact absorbed_eq_absorbBlocks _ fun j bound => padded j (by omega)
  · apply decodeBlock_eq_blockOf
    intro w bound
    rw [ptrEq, read32_marked _ bound]
    by_cases before : w < message.length % 16
    · rw [if_pos before, ← padded _ (by omega)]
      apply Memory.read32_congr
      intro k lower upper
      rw [holds.buffer_eq _ (by omega) (by omega)]
      congr 1
      omega
    · rw [if_neg before]
      by_cases marker : w = message.length % 16
      · have position : 16 * (message.length / 16) + w = message.length := by omega
        rw [if_pos marker, position]
        simp [List.getD]
      · have beyond : (message ++ [(0x80 : Word)]).length ≤ 16 * (message.length / 16) + w := by
          rw [List.length_append]
          simp only [List.length_cons, List.length_nil]
          omega
        rw [if_neg marker, List.getD_eq_getElem?_getD, List.getElem?_eq_none beyond]
        rfl

/-- Hashing words from a word-aligned address in one `shabal_core` call:
`shabal_close` stores their Shabal-256 digest and leaves a fresh context. -/
theorem shabalClose_core {cc : ShabalContext} (fresh : cc.Fresh) {data : Memory} (dst : Memory)
    {pos : Int} (des : Int) {message : List Word}
    (same : ∀ j : Nat, (bound : j < message.length) → data.read32 (pos + j) = message[j]) :
    (shabalClose (shabalCore cc data (4 * pos) (4 * message.length)) dst (4 * des)).1.Fresh ∧
    ∀ j : Int, (shabalClose (shabalCore cc data (4 * pos) (4 * message.length)) dst
        (4 * des)).2.read32 j =
      if des ≤ j ∧ j < des + 8 then (shabal256 message).getD (j - des).toNat 0
      else dst.read32 j := by
  have start : cc.Holds (fun i => data (4 * pos + i)) 0 := by
    obtain ⟨state, ptr⟩ := fresh
    unfold ShabalContext.Holds
    rw [state, ptr]
    exact BlockStream.Buffered.fresh _ _ _
  have holds := shabalCore_holds data (4 * pos) (4 * message.length) start (fun i lower upper => by simp)
  rw [Nat.zero_add] at holds
  have digest := closeBlock_of_holds message holds (by
    intro j bound
    rw [← same j bound]
    apply Memory.read32_congr
    intro k lower upper
    congr 1
    omega)
  refine ⟨⟨rfl, rfl⟩, fun j => ?_⟩
  unfold shabalClose
  simp only [digest]
  refine (Memory.read32_copy dst _ des 8 8 j).trans ?_
  by_cases inside : des ≤ j ∧ j < des + 8
  · have inside' : des ≤ j ∧ j < des + ((8 : Nat) : Int) := by omega
    rw [if_pos inside, if_pos inside']
    have word := Memory.read32_storeWords (fun _ => 0) (fun w => 8 + (w : Int))
      ((shabal256 message).getD · 0) (n := 8) (w := (j - des).toNat) (by intros; omega) (by omega)
    rw [← word]
    congr 1
    omega
  · have outside : ¬(des ≤ j ∧ j < des + ((8 : Nat) : Int)) := by omega
    rw [if_neg inside, if_neg outside]

attribute [irreducible] shabal256

end HyperPlotter.Poc
