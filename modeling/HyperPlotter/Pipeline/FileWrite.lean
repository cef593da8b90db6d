import Mathlib.Algebra.Ring.Nat
import Mathlib.Data.List.Basic

/-!
# The write loop

`file::write` hands its data to `WriteFile` until all of it is written or a call
fails. What a call writes is up to the system.
-/

namespace HyperPlotter.Pipeline.FileWrite

/-- How `WriteFile` answers its calls: what it returns and what it reports as
written, by the number of the call and the bytes requested. -/
structure WriteFile where
  ret : Nat → UInt32 → Bool
  wrBytes : Nat → UInt32 → UInt32
  empty : ∀ call, ret call 0 = true
  progress : ∀ call request, ret call request = true → 0 < request → 0 < wrBytes call request
  bounded : ∀ call request, wrBytes call request ≤ request
  failed : ∀ call request, ret call request = false → wrBytes call request = 0

/-- A call of `WriteFile` with its range of the data, and what it reported. -/
structure WriteCall where
  data : Nat
  request : UInt32
  wrBytes : UInt32

/-- The loop of `file::write`, up to `rounds` rounds. -/
def writeRounds (os : WriteFile) : Nat → Nat → Nat → UInt64 → Option (Bool × List WriteCall)
  | 0, _, _, _ => none
  | rounds + 1, call, data, bytesToWrite =>
      let request := bytesToWrite.toUInt32
      let ret := os.ret call request
      let wrBytes := os.wrBytes call request
      let rest := bytesToWrite - wrBytes.toUInt64
      if ret ∧ 0 < rest then
        (writeRounds os rounds (call + 1) (data + wrBytes.toNat) rest).map
          fun outcome => (outcome.1, ⟨data, request, wrBytes⟩ :: outcome.2)
      else
        some (!(!ret || decide (0 < rest)), [⟨data, request, wrBytes⟩])

/-- `file::write`: its result and the calls it made. -/
def write (isOpen : Bool) (os : WriteFile) (rounds : Nat) (bytesToWrite : UInt64) :
    Option (Bool × List WriteCall) :=
  if isOpen then writeRounds os rounds 0 0 bytesToWrite else some (false, [])

/-- The bytes that the calls wrote, each at the file position behind the one before. -/
def written (calls : List WriteCall) : Nat := (calls.map fun call => call.wrBytes.toNat).sum

/-- A run of the loop from `data` on stayed in its range, wrote it in order, and
returned true exactly when it wrote all of it. -/
structure Wrote (data length : Nat) (outcome : Bool × List WriteCall) : Prop where
  inside : ∀ call ∈ outcome.2, data ≤ call.data ∧ call.data + call.request.toNat ≤ data + length
  inOrder : ∀ earlier call later, outcome.2 = earlier ++ call :: later →
    call.data = data + written earlier
  success_iff : outcome.1 = true ↔ written outcome.2 = length

/-- Whatever the system does, the write of this length ends, stays in its range,
writes it in order, and returns true exactly when it wrote all of it. -/
def WritesAll (length : UInt64) : Prop :=
  ∀ os : WriteFile, ∃ rounds outcome, write true os rounds length = some outcome ∧
    Wrote 0 length.toNat outcome

/-! ## Every run that ends -/

/-- The rest after a call is what the call left. -/
theorem toNat_rest (os : WriteFile) (call : Nat) (bytesToWrite : UInt64) :
    (os.wrBytes call bytesToWrite.toUInt32).toNat ≤ bytesToWrite.toNat % 4294967296 ∧
    (bytesToWrite - (os.wrBytes call bytesToWrite.toUInt32).toUInt64).toNat =
      bytesToWrite.toNat - (os.wrBytes call bytesToWrite.toUInt32).toNat := by
  have bounded : (os.wrBytes call bytesToWrite.toUInt32).toNat ≤ bytesToWrite.toNat % 4294967296 :=
    UInt32.le_iff_toNat_le.mp (os.bounded call bytesToWrite.toUInt32)
  refine ⟨bounded, UInt64.toNat_sub_of_le _ _ (UInt64.le_iff_toNat_le.mpr ?_)⟩
  exact Nat.le_trans bounded (Nat.mod_le ..)

/-- One call alone. -/
theorem Wrote.last {os : WriteFile} {call data : Nat} {bytesToWrite : UInt64}
    (ends : ¬(os.ret call bytesToWrite.toUInt32 ∧
      0 < bytesToWrite - (os.wrBytes call bytesToWrite.toUInt32).toUInt64)) :
    Wrote data bytesToWrite.toNat
      (!(!os.ret call bytesToWrite.toUInt32 ||
          decide (0 < bytesToWrite - (os.wrBytes call bytesToWrite.toUInt32).toUInt64)),
        [⟨data, bytesToWrite.toUInt32, os.wrBytes call bytesToWrite.toUInt32⟩]) := by
  obtain ⟨bounded, rest⟩ := toNat_rest os call bytesToWrite
  refine ⟨?_, ?_, ?_⟩
  · refine List.forall_mem_singleton.mpr ?_
    exact ⟨Nat.le_refl data, Nat.add_le_add_left (Nat.mod_le ..) data⟩
  · rintro (none | ⟨first, earlier⟩) made later same
    · obtain ⟨rfl, -⟩ := List.cons.inj same
      rfl
    · exact absurd (List.cons.inj same).2.symm (by simp)
  · simp only [written, List.map_cons, List.map_nil, List.sum_singleton]
    cases returned : os.ret call bytesToWrite.toUInt32 with
    | true =>
        rw [returned] at ends
        have nothing : ¬0 < bytesToWrite - (os.wrBytes call bytesToWrite.toUInt32).toUInt64 :=
          fun more => ends ⟨rfl, more⟩
        simp only [nothing, decide_false, Bool.not_true, Bool.or_false, Bool.not_false, true_iff]
        rw [UInt64.lt_iff_toNat_lt, rest] at nothing
        exact Nat.le_antisymm (Nat.le_trans bounded (Nat.mod_le ..))
          (Nat.le_of_sub_eq_zero (Nat.eq_zero_of_not_pos nothing))
    | false =>
        -- An empty request succeeds, so there was something to write.
        have some_bytes : bytesToWrite.toUInt32 ≠ 0 := by
          intro none
          rw [none, os.empty] at returned
          cases returned
        rw [os.failed call _ returned]
        simp only [Bool.not_false, Bool.true_or, Bool.not_true, Bool.false_eq_true, false_iff]
        intro all
        apply some_bytes
        apply UInt32.toNat_inj.mp
        rw [UInt64.toNat_toUInt32, ← all]
        rfl

/-- A call before the others. -/
theorem Wrote.cons {data length : Nat} {outcome : Bool × List WriteCall}
    {made : WriteCall} (starts : made.data = data) (requested : made.request.toNat ≤ length)
    (wrote : made.wrBytes.toNat ≤ length)
    (rest : Wrote (data + made.wrBytes.toNat) (length - made.wrBytes.toNat) outcome) :
    Wrote data length (outcome.1, made :: outcome.2) := by
  refine ⟨?_, ?_, ?_⟩
  · refine List.forall_mem_cons.mpr ⟨⟨Nat.le_of_eq starts.symm, ?_⟩, fun call mem => ?_⟩
    · rw [starts]
      exact Nat.add_le_add_left requested data
    · obtain ⟨after, inside⟩ := rest.inside call mem
      omega
  · rintro (none | ⟨first, earlier⟩) call later same
    · obtain ⟨rfl, -⟩ := List.cons.inj same
      exact starts
    · obtain ⟨rfl, after⟩ := List.cons.inj same
      rw [rest.inOrder earlier call later after, written, written, List.map_cons, List.sum_cons,
        Nat.add_assoc]
  · rw [rest.success_iff, written, written, List.map_cons, List.sum_cons]
    omega

/-- A run that ends has kept to its range, whatever the length. -/
theorem wrote_of_writeRounds {os : WriteFile} {rounds call data : Nat} {bytesToWrite : UInt64}
    {outcome : Bool × List WriteCall}
    (ended : writeRounds os rounds call data bytesToWrite = some outcome) :
    Wrote data bytesToWrite.toNat outcome := by
  induction rounds generalizing call data bytesToWrite outcome with
  | zero => cases ended
  | succ rounds ih =>
      obtain ⟨bounded, rest⟩ := toNat_rest os call bytesToWrite
      rw [writeRounds] at ended
      split at ended
      · obtain ⟨later, ends, rfl⟩ := Option.map_eq_some_iff.mp ended
        have wrote := ih ends
        rw [rest] at wrote
        exact Wrote.cons rfl (Nat.mod_le ..) (Nat.le_trans bounded (Nat.mod_le ..)) wrote
      · next ends =>
          cases ended
          exact Wrote.last ends

/-! ## Which runs end -/

/-- Below `2^32` bytes every round that goes on has written something. -/
theorem writeRounds_isSome (os : WriteFile) {rounds : Nat} (call data : Nat) {bytesToWrite : UInt64}
    (short : bytesToWrite.toNat < 4294967296) (enough : bytesToWrite.toNat < rounds) :
    (writeRounds os rounds call data bytesToWrite).isSome := by
  induction rounds generalizing call data bytesToWrite with
  | zero => cases enough
  | succ rounds ih =>
      obtain ⟨bounded, rest⟩ := toNat_rest os call bytesToWrite
      rw [writeRounds]
      split
      · next goes =>
          rw [Option.isSome_map]
          have more := UInt64.lt_iff_toNat_lt.mp goes.2
          have asked : 0 < bytesToWrite.toUInt32 := by
            rw [UInt32.lt_iff_toNat_lt, UInt64.toNat_toUInt32]
            change 0 < bytesToWrite.toNat % 4294967296
            rw [rest] at more
            rw [Nat.mod_eq_of_lt short]
            exact Nat.lt_of_lt_of_le more (Nat.sub_le ..)
          have wrote := UInt32.lt_iff_toNat_lt.mp (os.progress call _ goes.1 asked)
          rw [rest] at more
          apply ih
          · rw [rest]
            exact Nat.lt_of_le_of_lt (Nat.sub_le ..) short
          · rw [rest]
            change 0 < _ at more wrote
            omega
      · rfl

/-- The system that writes all of every request. -/
def writesRequests : WriteFile where
  ret _ _ := true
  wrBytes _ request := request
  empty _ := rfl
  progress _ _ _ asked := asked
  bounded _ _ := UInt32.le_refl _
  failed _ _ h := by cases h

/-- At a nonzero multiple of `2^32` the request is for nothing, and nothing changes. -/
theorem writeRounds_stuck (rounds call data : Nat) {bytesToWrite : UInt64}
    (cut : bytesToWrite.toUInt32 = 0) (more : 0 < bytesToWrite) :
    writeRounds writesRequests rounds call data bytesToWrite = none := by
  induction rounds generalizing call data with
  | zero => rfl
  | succ rounds ih =>
      have stays : bytesToWrite - (writesRequests.wrBytes call bytesToWrite.toUInt32).toUInt64 =
          bytesToWrite := by
        change bytesToWrite - bytesToWrite.toUInt32.toUInt64 = bytesToWrite
        rw [cut]
        exact UInt64.sub_zero bytesToWrite
      rw [writeRounds, stays, if_pos ⟨rfl, more⟩, ih]
      rfl

/-- From `2^32` bytes on the first full request leaves a multiple of `2^32`. -/
theorem writeRounds_none (rounds call data : Nat) {bytesToWrite : UInt64}
    (long : 4294967296 ≤ bytesToWrite.toNat) :
    writeRounds writesRequests rounds call data bytesToWrite = none := by
  cases rounds with
  | zero => rfl
  | succ rounds =>
      have rest := (toNat_rest writesRequests call bytesToWrite).2
      change _ = bytesToWrite.toNat - bytesToWrite.toNat % 4294967296 at rest
      have more : 0 < bytesToWrite -
          (writesRequests.wrBytes call bytesToWrite.toUInt32).toUInt64 := by
        rw [UInt64.lt_iff_toNat_lt, rest]
        change 0 < _
        omega
      rw [writeRounds, if_pos ⟨rfl, more⟩, writeRounds_stuck _ _ _ ?_ more]
      · rfl
      · apply UInt32.toNat_inj.mp
        rw [UInt64.toNat_toUInt32, rest]
        change _ % 4294967296 = 0
        omega

/-- Writes below `2^32` bytes do what they should, and only they do. -/
theorem writesAll_iff (length : UInt64) : WritesAll length ↔ length.toNat < 4294967296 := by
  constructor
  · intro writes
    refine Nat.lt_of_not_le fun long => ?_
    obtain ⟨rounds, outcome, ended, -⟩ := writes writesRequests
    have never : write true writesRequests rounds length = none :=
      writeRounds_none rounds 0 0 long
    rw [never] at ended
    cases ended
  · intro short os
    obtain ⟨outcome, ended⟩ := Option.isSome_iff_exists.mp
      (writeRounds_isSome os 0 0 short (Nat.lt_succ_self _))
    exact ⟨length.toNat.succ, outcome, ended, wrote_of_writeRounds ended⟩

/-- A write of 4 GiB need not end. -/
theorem not_writesAll : ¬WritesAll 4294967296 := by
  intro writes
  obtain ⟨rounds, outcome, ended, -⟩ := writes writesRequests
  have never : write true writesRequests rounds 4294967296 = none :=
    writeRounds_none rounds 0 0 (by decide)
  rw [never] at ended
  cases ended

end HyperPlotter.Pipeline.FileWrite
