/-!
# Buffered block streams

A hash that consumes fixed-size blocks keeps a buffer of items which do not
fill a block yet. `absorbed` is the meaning of a whole message, `Buffered`
relates it to a running state with its buffer, and the two `Buffered.fill`
rules cover every way of moving items from an input into the buffer.
-/

namespace HyperPlotter.Foundation.BlockStream

variable {State Item : Type} (size : Nat) (absorb : State → (Int → Item) → State)

/-- The state after the first `n` blocks of a message. -/
def absorbed (initial : State) (message : Int → Item) : Nat → State
  | 0 => initial
  | n + 1 => absorb (absorbed initial message n) fun i => message ((size * n : Nat) + i)

/-- `absorb` looks at one block only. -/
def Local : Prop := ∀ state (left right : Int → Item),
  (∀ i : Int, 0 ≤ i → i < size → left i = right i) → absorb state left = absorb state right

/-- A running state after `count` items of a message. -/
structure Buffered (initial : State) (message : Int → Item) (count : Nat)
    (state : State) (buffer : Int → Item) (ptr : Nat) : Prop where
  state_eq : state = absorbed size absorb initial message (count / size)
  ptr_eq : ptr = count % size
  buffer_eq : ∀ i : Int, 0 ≤ i → i < ptr → buffer i =
    message ((size * (count / size) : Nat) + i)

variable {size absorb} {initial : State} {message : Int → Item} {count : Nat}
  {state : State} {buffer : Int → Item} {ptr : Nat}

/-- Nothing has been fed to a fresh state. -/
theorem Buffered.fresh (initial : State) (message buffer : Int → Item) :
    Buffered size absorb initial message 0 initial buffer 0 where
  state_eq := by simp [absorbed]
  ptr_eq := by simp
  buffer_eq := by
    intro i lower upper
    omega

private theorem div_add_of_lt {count more size : Nat} (short : count % size + more < size) :
    (count + more) / size = count / size ∧ (count + more) % size = count % size + more := by
  have split := Nat.div_add_mod count size
  have total : count + more = size * (count / size) + (count % size + more) := by omega
  have positive : 0 < size := by omega
  rw [total]
  constructor
  · rw [Nat.mul_add_div positive, Nat.div_eq_of_lt short, Nat.add_zero]
  · rw [Nat.mul_add_mod, Nat.mod_eq_of_lt short]

private theorem div_add_of_eq {count more size : Nat} (positive : 0 < size)
    (full : count % size + more = size) :
    (count + more) / size = count / size + 1 ∧ (count + more) % size = 0 := by
  have split := Nat.div_add_mod count size
  have total : count + more = size * (count / size + 1) := by
    rw [Nat.mul_add, Nat.mul_one]
    omega
  rw [total]
  exact ⟨Nat.mul_div_cancel_left _ positive, Nat.mul_mod_right _ _⟩

/-- The buffer with new items behind the old ones. -/
theorem Buffered.filled_eq (running : Buffered size absorb initial message count state buffer ptr)
    {more : Nat} {filled : Int → Item} (kept : ∀ i : Int, 0 ≤ i → i < ptr → filled i = buffer i)
    (added : ∀ i : Int, 0 ≤ i → i < more → filled (ptr + i) = message (count + i)) :
    ∀ i : Int, 0 ≤ i → i < (ptr + more : Nat) →
      filled i = message ((size * (count / size) : Nat) + i) := by
  intro i lower upper
  by_cases old : i < ptr
  · rw [kept i lower old]
    exact running.buffer_eq i lower old
  · have position := added (i - ptr) (by omega) (by omega)
    have ptrEq := running.ptr_eq
    have split := Nat.div_add_mod count size
    rw [show (ptr : Int) + (i - ptr) = i by omega] at position
    rw [position]
    congr 1
    omega

/-- Items which do not complete the block only move the write pointer. -/
theorem Buffered.fill (running : Buffered size absorb initial message count state buffer ptr)
    {more : Nat} {filled : Int → Item} (short : ptr + more < size)
    (kept : ∀ i : Int, 0 ≤ i → i < ptr → filled i = buffer i)
    (added : ∀ i : Int, 0 ≤ i → i < more → filled (ptr + i) = message (count + i)) :
    Buffered size absorb initial message (count + more) state filled (ptr + more) := by
  have ptrEq := running.ptr_eq
  obtain ⟨quotient, remainder⟩ := div_add_of_lt (ptrEq ▸ short)
  refine ⟨?_, by omega, ?_⟩
  · rw [quotient]
    exact running.state_eq
  · rw [quotient]
    exact running.filled_eq kept added

/-- Items which complete the block absorb it and empty the buffer. -/
theorem Buffered.fill_block (positive : 0 < size) (isLocal : Local size absorb)
    (running : Buffered size absorb initial message count state buffer ptr)
    {more : Nat} {filled : Int → Item} (full : ptr + more = size)
    (kept : ∀ i : Int, 0 ≤ i → i < ptr → filled i = buffer i)
    (added : ∀ i : Int, 0 ≤ i → i < more → filled (ptr + i) = message (count + i)) :
    Buffered size absorb initial message (count + more) (absorb state filled) filled 0 := by
  have ptrEq := running.ptr_eq
  obtain ⟨quotient, remainder⟩ := div_add_of_eq positive (ptrEq ▸ full)
  refine ⟨?_, by omega, fun i lower upper => by omega⟩
  rw [quotient, absorbed, ← running.state_eq]
  apply isLocal
  intro i lower upper
  exact running.filled_eq kept added i lower (by omega)

end HyperPlotter.Foundation.BlockStream
