import Mathlib.Data.List.GetD
import HyperPlotter.Poc.CpuPlotter

/-!
# The streaming hash object

`Shabal256` takes a message in pieces of any lengths. Over one memory, from which it
reads and into which it writes its digests, it does what an object does that keeps the
bytes since the last digest and hashes them at once.
-/

namespace HyperPlotter.Poc

open Foundation

/-! ## Hashing bytes at once -/

/-- Bytes laid out from address 0 on, zeros behind. -/
def layOut (message : List Byte) : Memory := fun i => message.getD i.toNat 0

/-- Shabal-256 of a message of bytes: full blocks, then the rest with the marker `0x80`
and zeros. -/
def byteDigest (message : List Byte) : Digest :=
  let padded := layOut (message ++ [0x80])
  let blocks := message.length / 64
  Shabal.closeBlock (BlockStream.absorbed 64 absorbBuffer Shabal.initial padded blocks)
    (decodeBlock fun i => padded ((64 * blocks : Nat) + i))

/-- The words of a digest stored at `des`, by way of `tmp_out`. -/
def storeDigest (digest : Digest) (dst : Memory) (des : Int) : Memory :=
  dst.copy des (Memory.storeWords (fun _ => 0) (fun w => 8 + w) (digest.getD · 0) 8) 32 32

/-- `len` bytes from `pos` on. -/
def bytesAt (data : Memory) (pos : Int) (len : Nat) : List Byte :=
  (List.range len).map fun i : Nat => data (pos + i)

/-! ## The object -/

/-- The methods of `Shabal256`, with addresses in the memory they are called on. -/
inductive HashCall where
  | update (pos : Int) (len : Nat)
  | digest (out : Int)
  | close (out : Int)

/-- What a method does with the context and the memory. -/
def HashCall.perform (s : ShabalContext × Memory) : HashCall → ShabalContext × Memory
  | .update pos len => (shabalCore s.1 s.2 pos len, s.2)
  | .digest out => shabalDigest s.1 s.2 out
  | .close out => shabalClose s.1 s.2 out

/-- The same on an object that keeps the bytes of its message. -/
def HashCall.atOnce (s : List Byte × Memory) : HashCall → List Byte × Memory
  | .update pos len => (s.1 ++ bytesAt s.2 pos len, s.2)
  | .digest out => ([], storeDigest (byteDigest s.1) s.2 out)
  | .close out => ([], storeDigest (byteDigest s.1) s.2 out)

/-- The context has taken in the message, wherever that lies. -/
def ShabalContext.Takes (cc : ShabalContext) (message : List Byte) : Prop :=
  ∀ bytes : Memory, (∀ i, i < message.length → bytes (i : Nat) = message.getD i 0) →
    cc.Holds bytes message.length

section

variable {cc : ShabalContext} {message : List Byte}

/-- A fresh context has taken in nothing. -/
theorem ShabalContext.Fresh.takes (fresh : cc.Fresh) : cc.Takes [] := by
  obtain ⟨state, ptr⟩ := fresh
  intro bytes _
  unfold ShabalContext.Holds
  rw [state, ptr]
  exact BlockStream.Buffered.fresh _ _ _

/-- The first bytes of a message that goes on. -/
theorem layOut_append {more : List Byte} {i : Nat} (inside : i < message.length) :
    layOut (message ++ more) i = message.getD i 0 := by
  unfold layOut
  rw [Int.toNat_natCast, List.getD_append _ _ _ _ inside]

/-- The bytes of an update come behind the others. -/
theorem ShabalContext.Takes.update (takes : cc.Takes message) (data : Memory) (pos : Int)
    (len : Nat) : (shabalCore cc data pos len).Takes (message ++ bytesAt data pos len) := by
  intro bytes same
  have length : (message ++ bytesAt data pos len).length = message.length + len := by
    simp [bytesAt]
  rw [length] at same ⊢
  have holds : cc.Holds bytes message.length := by
    apply takes
    intro i inside
    rw [same i (by omega), List.getD_append _ _ _ _ inside]
  refine shabalCore_holds data pos len holds fun i lower upper => ?_
  obtain ⟨i, rfl⟩ := Int.eq_ofNat_of_zero_le lower
  have here := same (message.length + i) (by omega)
  rw [Int.natCast_add] at here
  rw [here, List.getD_append_right _ _ _ _ (Nat.le_add_right ..), Nat.add_sub_cancel_left]
  have inside : i < len := by omega
  simp [bytesAt, List.getD_eq_getElem?_getD, inside]

/-- What `shabal_close` hashes is the last block of the padded message. -/
theorem ShabalContext.Takes.closeBlock (takes : cc.Takes message) :
    Shabal.closeBlock cc.state (decodeBlock (Memory.zero
      (fun a => if a = cc.ptr then 0x80 else cc.buf a) (cc.ptr + 1) (64 - (cc.ptr + 1)))) =
        byteDigest message := by
  have holds := takes (layOut (message ++ [0x80])) fun i inside => layOut_append inside
  have ptr := holds.ptr_eq
  have split := Nat.div_add_mod message.length 64
  unfold byteDigest
  dsimp only
  rw [← holds.state_eq]
  refine congrArg (Shabal.closeBlock cc.state) (decodeBlock_congr fun i lower upper => ?_)
  rcases Int.lt_trichotomy i cc.ptr with before | marker | behind
  · rw [Memory.zero_outside _ (by omega), if_neg (by omega)]
    exact holds.buffer_eq i lower before
  · rw [Memory.zero_outside _ (by omega), if_pos marker]
    have place : ((64 * (message.length / 64) : Nat) + i : Int).toNat = message.length := by omega
    unfold layOut
    rw [place, List.getD_append_right _ _ _ _ (Nat.le_refl _), Nat.sub_self]
    rfl
  · rw [Memory.zero_inside _ (by omega)]
    have place : (message ++ [(0x80 : Byte)]).length ≤
        ((64 * (message.length / 64) : Nat) + i : Int).toNat := by
      rw [List.length_append, List.length_singleton]
      omega
    unfold layOut
    rw [List.getD_eq_default _ _ place]

/-- On whole words this is the digest that nonces are made of. -/
theorem byteDigest_words {words : List Word} (length : message.length = 4 * words.length)
    (same : ∀ j : Nat, (bound : j < words.length) → (layOut message).read32 j = words[j]) :
    byteDigest message = shabal256 words := by
  have fresh : (⟨Shabal.initial, fun _ => 0, 0⟩ : ShabalContext).Fresh := ⟨rfl, rfl⟩
  have takes := fresh.takes.update (layOut message) 0 message.length
  have all : [] ++ bytesAt (layOut message) 0 message.length = message := by
    apply List.ext_getElem
    · simp [bytesAt]
    · intro i inside bound
      simp [bytesAt, layOut, bound]
  rw [all] at takes
  have holds := takes (layOut message) fun i inside => by simp [layOut]
  rw [length] at holds
  rw [← takes.closeBlock, length]
  exact closeBlock_of_holds words holds same

/-- Closing stores the digest of the message and starts the next one. -/
theorem ShabalContext.Takes.close (takes : cc.Takes message) (dst : Memory) (des : Int) :
    (shabalClose cc dst des).1.Fresh ∧
      (shabalClose cc dst des).2 = storeDigest (byteDigest message) dst des := by
  refine ⟨⟨rfl, rfl⟩, ?_⟩
  rw [← takes.closeBlock]
  rfl

/-- One call. -/
theorem HashCall.perform_atOnce {data : Memory} (takes : cc.Takes message) (call : HashCall) :
    (call.perform (cc, data)).1.Takes (call.atOnce (message, data)).1 ∧
      (call.perform (cc, data)).2 = (call.atOnce (message, data)).2 := by
  cases call with
  | update pos len => exact ⟨takes.update data pos len, rfl⟩
  | digest out =>
      obtain ⟨_, stored⟩ := takes.close data out
      have fresh : (shabalDigest cc data out).1.Fresh := ⟨rfl, rfl⟩
      exact ⟨fresh.takes, stored⟩
  | close out =>
      obtain ⟨fresh, stored⟩ := takes.close data out
      exact ⟨fresh.takes, stored⟩

end

/-- Whatever calls are made on a constructed `Shabal256`, with pieces of any lengths and
digests anywhere in the memory, the memory is that of hashing the bytes since the last
digest at once, and the context has taken in the bytes that are not hashed yet. -/
theorem shabal_streams (cc : ShabalContext) (data : Memory) (calls : List HashCall) :
    (calls.foldl HashCall.perform (shabalInit cc, data)).2 =
        (calls.foldl HashCall.atOnce ([], data)).2 ∧
      (calls.foldl HashCall.perform (shabalInit cc, data)).1.Takes
        (calls.foldl HashCall.atOnce ([], data)).1 := by
  have run : ∀ (calls : List HashCall) (cc : ShabalContext) (message : List Byte) (data : Memory),
      cc.Takes message → (calls.foldl HashCall.perform (cc, data)).2 =
          (calls.foldl HashCall.atOnce (message, data)).2 ∧
        (calls.foldl HashCall.perform (cc, data)).1.Takes
          (calls.foldl HashCall.atOnce (message, data)).1 := by
    intro calls
    induction calls with
    | nil => exact fun _ _ _ takes => ⟨rfl, takes⟩
    | cons call rest ih =>
        intro cc message data takes
        have step : _ ∧ (call.perform (cc, data)).2 = (call.atOnce (message, data)).2 :=
          HashCall.perform_atOnce takes call
        obtain ⟨next, same⟩ := step
        rw [List.foldl_cons, List.foldl_cons]
        have first : call.perform (cc, data) =
            ((call.perform (cc, data)).1, (call.atOnce (message, data)).2) := Prod.ext rfl same
        rw [first]
        exact ih _ _ _ next
  have fresh : (shabalInit cc).Fresh := ⟨rfl, rfl⟩
  exact run calls _ [] data fresh.takes

end HyperPlotter.Poc
