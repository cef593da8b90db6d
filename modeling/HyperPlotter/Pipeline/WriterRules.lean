import HyperPlotter.Pipeline.Stored

/-!
# What a writer leaves on disk

`Disk` is the state of a writer's files between two hash tasks: what it has
reported is in the files, complete files have been submitted. The rules below
carry it through one attempt of `perform_write_plot` and through the thread,
as long as no poll inside `perform_write_plot` reads a set stop flag. With
`strict` a writer also never leaves its retry loop and never fails to rename.
-/

namespace HyperPlotter.Pipeline

open Foundation Poc Interaction

/-- The hash tasks a writer has reported. -/
abbrev WriterState.reported (s : WriterState) : List HasherTask := s.finished.map Prod.fst

/-- The answers of `submit_nonces` with the file at that moment. -/
def submissions : List WriterEvent → List (Bool × Option FileEntry) :=
  List.filterMap fun
    | .submitted complete content => some (complete, content)
    | _ => none

@[simp] theorem submissions_append (first second : List WriterEvent) :
    submissions (first ++ second) = submissions first ++ submissions second :=
  List.filterMap_append ..

/-- One submission for each task: true exactly for the task that completes its
file, and then the file holds all its tasks. -/
inductive Submissions (plan : List PlannedFile) :
    List (HasherTask × Memory) → List (Bool × Option FileEntry) → Prop where
  | nil : Submissions plan [] []
  | snoc {tasks answers task block complete content index file}
      (prior : Submissions plan tasks answers) (current : task.currentWriteTask = ((index : Nat) : Int))
      (found : plan[index]? = some file)
      (verdict : complete = true ↔
        issuedNonces index (tasks.map Prod.fst) + task.nonces = file.nonces)
      (whole : complete = true → ∃ entry, content = some entry ∧
        FileHolds entry file index (tasks ++ [(task, block)])) :
      Submissions plan (tasks ++ [(task, block)]) (answers ++ [(complete, content)])

/-- No write of the history is outside its file. -/
def WritesWithin (plan : List PlannedFile) (history : List WriterEvent) : Prop :=
  ∀ i position count, .wrote i position count ∈ history → ∃ file, plan[i]? = some file ∧
    position + count ≤ 64 * (4096 * file.nonces.toNat)

section

variable (plan : List PlannedFile) (strict : Prop)

/-- The files between two hash tasks. -/
structure Disk (s : WriterState) : Prop where
  sequence : Sequence plan s.reported
  growing : ∀ i file, plan[i]? = some file → 0 < issuedNonces i s.reported →
    issuedNonces i s.reported < file.nonces →
    ∃ entry, s.plotting i = some entry ∧ FileHolds entry file i s.finished
  complete : ∀ i file, plan[i]? = some file → issuedNonces i s.reported = file.nonces →
    ∃ entry, (s.final i = some entry ∨ ¬strict ∧ s.plotting i = some entry) ∧
      FileHolds entry file i s.finished
  counted : ∀ i file, plan[i]? = some file → s.submitted i = issuedNonces i s.reported
  within : WritesWithin plan s.history
  answers : Submissions plan s.finished (submissions s.history)

/-- What holds of the reported tasks at every moment. -/
structure Safe (s : WriterState) : Prop where
  stored : ∀ i file, plan[i]? = some file → 0 < issuedNonces i s.reported →
    ∃ entry, (s.plotting i = some entry ∨ s.final i = some entry) ∧
      FileHolds entry file i s.finished
  complete : strict → ∀ i file, plan[i]? = some file → issuedNonces i s.reported = file.nonces →
    ∃ entry, s.final i = some entry ∧ FileHolds entry file i s.finished
  within : WritesWithin plan s.history

/-- A file that may be renamed: it holds every nonce. -/
def Renamable (i : Nat) (s : WriterState) : Prop :=
  ∃ file entry, plan[i]? = some file ∧ s.plotting i = some entry ∧
    Sequence plan ((s.finished ++ s.current.toList).map Prod.fst) ∧
    issuedNonces i ((s.finished ++ s.current.toList).map Prod.fst) = file.nonces ∧
    FileHolds entry file i (s.finished ++ s.current.toList)

/-- The choices under which the rules hold. A popped task continues the series,
and its block holds the same bytes whenever the writer looks at it. -/
def Permitted (s : WriterState) : WriterRequest → Choice → Prop
  | .stopped poll, choice => (poll.DataLeft → choice.stop = false) ∧
    (poll = .retry → strict → choice.stop = false)
  | .rename _, choice => strict → choice.ok = true
  | .pop, choice => ∀ task, choice.task = some task → Sequence plan (s.reported ++ [task])
  | .gather .., choice => ∀ pair, s.current = some pair → choice.block = pair.2
  | _, _ => True

/-- What holds before every request. -/
structure Guarded (s : WriterState) (request : WriterRequest) : Prop where
  safe : strict → Safe plan strict s
  rename : ∀ i, request = .rename i → Renamable plan i s
  pop : request = .pop → s.current = none

/-- `Always` for a writer. -/
abbrev Verified {α : Type} (post : α → WriterState → Prop) (program : WriterProgram α)
    (s : WriterState) : Prop :=
  Always WriterState.respond (Permitted plan strict) (Guarded plan strict) post program s

end

variable {plan : List PlannedFile} {strict : Prop}

/-- `Disk` looks at the files, the counters and what was reported. -/
theorem Disk.of_eq {s s' : WriterState} (disk : Disk plan strict s)
    (plotting : s'.plotting = s.plotting) (final : s'.final = s.final)
    (submitted : s'.submitted = s.submitted) (finished : s'.finished = s.finished)
    (history : s'.history = s.history) : Disk plan strict s' := by
  have reported : s'.reported = s.reported := congrArg (List.map Prod.fst) finished
  constructor
  · rw [reported]
    exact disk.sequence
  · rw [reported, plotting, finished]
    exact disk.growing
  · rw [reported, plotting, final, finished]
    exact disk.complete
  · rw [reported, submitted]
    exact disk.counted
  · rw [history]
    exact disk.within
  · rw [finished, history]
    exact disk.answers

/-- Between tasks everything reported is safe. -/
theorem Disk.safe {s : WriterState} (valid : ∀ file ∈ plan, file.Valid)
    (disk : Disk plan strict s) : Safe plan strict s where
  stored := by
    intro i file found some_issued
    obtain ⟨_, upper⟩ := disk.sequence.issued_le (PlannedFile.typed valid) found
    by_cases complete : issuedNonces i s.reported = file.nonces
    · obtain ⟨entry, place, holds⟩ := disk.complete i file found complete
      rcases place with final | ⟨_, plotting⟩
      · exact ⟨entry, .inr final, holds⟩
      · exact ⟨entry, .inl plotting, holds⟩
    · obtain ⟨entry, plotting, holds⟩ := disk.growing i file found some_issued (by omega)
      exact ⟨entry, .inl plotting, holds⟩
  complete := by
    intro isStrict i file found complete
    obtain ⟨entry, place, holds⟩ := disk.complete i file found complete
    rcases place with final | ⟨lax, _⟩
    · exact ⟨entry, final, holds⟩
    · exact absurd isStrict lax
  within := disk.within

/-- `Safe` looks at the files and what was reported. -/
theorem Safe.of_eq {s t : WriterState} (safe : Safe plan strict s)
    (plotting : t.plotting = s.plotting) (final : t.final = s.final)
    (finished : t.finished = s.finished) (within : WritesWithin plan t.history) :
    Safe plan strict t := by
  have reported : t.reported = s.reported := congrArg (List.map Prod.fst) finished
  constructor
  · rw [reported, plotting, final, finished]
    exact safe.stored
  · rw [reported, final, finished]
    exact safe.complete
  · exact within

/-- A request other than a rename or a pop is guarded by the state alone. -/
theorem Disk.guarded {s : WriterState} (valid : ∀ file ∈ plan, file.Valid)
    (disk : Disk plan strict s) {request : WriterRequest} (other : ∀ i, request ≠ .rename i)
    (empty : request = .pop → s.current = none) : Guarded plan strict s request :=
  ⟨fun _ => disk.safe valid, fun i same => absurd same (other i), empty⟩

/-- The rule for a poll: the state stays, the answer is what the place permits. -/
theorem Verified.poll {α : Type} {post : α → WriterState → Prop} {place : Poll}
    {next : Bool → WriterProgram α} {s : WriterState} (safe : strict → Safe plan strict s)
    (rest : ∀ stop : Bool, (place.DataLeft → stop = false) →
      (place = .retry → strict → stop = false) → Verified plan strict post (next stop) s) :
    Verified plan strict post (call (.stopped place) >>= next) s :=
  always_perform.mpr ⟨⟨safe, nofun, nofun⟩, fun choice permitted =>
    rest choice.stop permitted.1 permitted.2⟩

/-- Replacing the `.plotting` file of an unfinished file by one that keeps the
reported tasks. -/
theorem Disk.replace {s s' : WriterState} {index : Nat} {file : PlannedFile} {entry : FileEntry}
    (disk : Disk plan strict s) (found : plan[index]? = some file)
    (unfinished : issuedNonces index s.reported < file.nonces)
    (plotting : s'.plotting = Function.update s.plotting index (some entry))
    (final : s'.final = s.final) (submitted : s'.submitted = s.submitted)
    (finished : s'.finished = s.finished) (within : WritesWithin plan s'.history)
    (answers : submissions s'.history = submissions s.history)
    (holds : 0 < issuedNonces index s.reported → FileHolds entry file index s.finished) :
    Disk plan strict s' := by
  have reported : s'.reported = s.reported := congrArg (List.map Prod.fst) finished
  constructor
  · rw [reported]
    exact disk.sequence
  · intro i other foundOther some_issued below
    rw [reported] at some_issued below
    rw [plotting, finished]
    by_cases same : i = index
    · subst same
      obtain rfl : file = other := Option.some.inj (found.symm.trans foundOther)
      exact ⟨entry, Function.update_self .., holds some_issued⟩
    · rw [Function.update_of_ne same]
      exact disk.growing i other foundOther some_issued below
  · intro i other foundOther complete
    rw [reported] at complete
    rw [plotting, final, finished]
    have differ : i ≠ index := by
      rintro rfl
      obtain rfl : file = other := Option.some.inj (found.symm.trans foundOther)
      omega
    rw [Function.update_of_ne differ]
    exact disk.complete i other foundOther complete
  · rw [reported, submitted]
    exact disk.counted
  · exact within
  · rw [finished, answers]
    exact disk.answers

/-! ## One attempt -/

section Attempt

variable (plan strict)

/-- The state during an attempt at a task of file `index`. -/
structure Attempting (index : Nat) (file : PlannedFile) (task : HasherTask) (block : Memory)
    (s : WriterState) : Prop where
  disk : Disk plan strict s
  current : s.current = some (task, block)
  next : Continues plan s.reported task index file
  handle : s.handle = none ∨ s.handle = some index ∧ (s.plotting index).isSome

/-- During `perform_write_plot` the scoops below `c`, and of scoop `c` the lanes
below `k`, are in the file. -/
structure Writing (index : Nat) (file : PlannedFile) (task : HasherTask) (block : Memory)
    (c k : Nat) (s : WriterState) : Prop where
  disk : Disk plan strict s
  current : s.current = some (task, block)
  next : Continues plan s.reported task index file
  handle : s.handle = some index
  written : ∃ entry, s.plotting index = some entry ∧ ∀ c' k' : Nat, c' < 4096 →
    (k' : Int) < task.nonces → c' < c ∨ c' = c ∧ k' < k →
    SlotHolds entry (c' * file.nonces.toNat + (task.offset file + k')) block c' k'

end Attempt

variable {index : Nat} {file : PlannedFile} {task : HasherTask} {block : Memory}

/-- Writing is part of an attempt. -/
theorem Writing.attempting {c k : Nat} {s : WriterState}
    (writing : Writing plan strict index file task block c k s) :
    Attempting plan strict index file task block s := by
  obtain ⟨entry, plotting, _⟩ := writing.written
  exact ⟨writing.disk, writing.current, writing.next, .inr ⟨writing.handle, by rw [plotting]; rfl⟩⟩

/-- `Writing` looks at the files and the tasks. -/
theorem Writing.of_eq {c k : Nat} {s s' : WriterState}
    (writing : Writing plan strict index file task block c k s)
    (plotting : s'.plotting = s.plotting) (final : s'.final = s.final)
    (submitted : s'.submitted = s.submitted) (finished : s'.finished = s.finished)
    (history : s'.history = s.history) (current : s'.current = s.current)
    (handle : s'.handle = s.handle) : Writing plan strict index file task block c k s' := by
  have reported : s'.reported = s.reported := congrArg (List.map Prod.fst) finished
  constructor
  · exact writing.disk.of_eq plotting final submitted finished history
  · rw [current, writing.current]
  · rw [reported]
    exact writing.next
  · rw [handle, writing.handle]
  · rw [plotting]
    exact writing.written

/-- All lanes of a scoop are written: the next scoop begins. -/
theorem Writing.nextScoop {c : Nat} {s : WriterState} {n : Nat} (all : task.nonces ≤ n)
    (writing : Writing plan strict index file task block c n s) :
    Writing plan strict index file task block (c + 1) 0 s := by
  obtain ⟨entry, plotting, slots⟩ := writing.written
  refine ⟨writing.disk, writing.current, writing.next, writing.handle, entry, plotting, ?_⟩
  intro c' k' scoop lane done
  refine slots c' k' scoop lane ?_
  rcases done with earlier | ⟨_, none⟩
  · by_cases same : c' = c
    · exact .inr ⟨same, by omega⟩
    · exact .inl (by omega)
  · omega

/-- The open file during `perform_write_plot`. -/
theorem Writing.opened {c k : Nat} {s : WriterState}
    (writing : Writing plan strict index file task block c k s) :
    ∃ entry, s.opened = some (index, entry) ∧ s.plotting index = some entry := by
  obtain ⟨entry, plotting, _⟩ := writing.written
  refine ⟨entry, ?_, plotting⟩
  unfold WriterState.opened
  rw [writing.handle, Option.bind_some, plotting]
  rfl

/-- A write into the open file; `count` bytes of it are done. -/
private theorem WriterState.write_opened {s : WriterState} {entry : FileEntry}
    (opened : s.opened = some (index, entry)) {choice : Outcome} {bytes count : Nat}
    (done : (if choice.ok = true then bytes else min choice.amount bytes) = count) :
    s.write choice bytes = (choice.ok, { s with
      plotting := Function.update s.plotting index
        (some (entry.written s.position s.writeBuffer count))
      position := s.position + count
      history := s.history ++ [.wrote index s.position count] }) := by
  unfold WriterState.write
  simp only [opened, done]
  rfl

/-- A write of some lanes of a scoop leaves the other slots alone. -/
private theorem SlotHolds.beside {entry : FileEntry} {data buffer : Memory}
    {nonces c x m count c' x' scoop lane : Nat} (bound : count ≤ 64 * m) (fits : x + m ≤ nonces)
    (below : x' < nonces) (differ : c' ≠ c ∨ x' < x ∨ x + m ≤ x')
    (slot : SlotHolds entry (c' * nonces + x') data scoop lane) :
    SlotHolds (entry.written (64 * (c * nonces + x)) buffer count) (c' * nonces + x') data scoop
      lane :=
  slot.written bound (slot_beside below fits differ)

/-- A write of the task in hand leaves the reported tasks alone. -/
private theorem Disk.written (valid : ∀ file ∈ plan, file.Valid) {c k m count : Nat}
    {s : WriterState} (disk : Disk plan strict s) (next : Continues plan s.reported task index file)
    {entry : FileEntry} (plotting : s.plotting index = some entry) (scoop : c < 4096)
    (fits : ((k + m : Nat) : Int) ≤ task.nonces) (bound : count ≤ 64 * m)
    (position : s.position = 64 * (c * file.nonces.toNat + (task.offset file + k))) :
    Disk plan strict { s with
      plotting := Function.update s.plotting index
        (some (entry.written s.position s.writeBuffer count))
      position := s.position + count
      history := s.history ++ [.wrote index s.position count] } := by
  have found := next.found
  have offset := next.offset_eq valid disk.sequence
  have positive := next.positive
  have within := next.fits
  refine disk.replace found (by omega) rfl rfl rfl rfl ?_ ?_ ?_
  · intro i position' count' event
    rcases List.mem_append.mp event with old | new
    · exact disk.within i position' count' old
    · obtain ⟨rfl, rfl, rfl⟩ : i = index ∧ position' = s.position ∧ count' = count := by
        simpa using new
      have last := slot_le scoop (show task.offset file + k + m ≤ file.nonces.toNat by omega)
      refine ⟨file, found, ?_⟩
      rw [position]
      omega
  · simp [submissions]
  · intro some_issued other data member current c' k' scoop' lane
    obtain ⟨old, here, holds⟩ := disk.growing index file found some_issued (by omega)
    obtain rfl : entry = old := Option.some.inj (plotting.symm.trans here)
    have before : (other.offset file : Int) + other.nonces ≤ issuedNonces index s.reported :=
      disk.sequence.offset_add_le valid (List.mem_map_of_mem (f := Prod.fst) member) current found
    rw [position]
    exact (holds other data member current c' k' scoop' lane).beside bound (by omega) (by omega)
      (.inr (.inl (by omega)))

/-- A write of `m` lanes from lane `k` on, complete or cut short. -/
theorem Writing.write (valid : ∀ file ∈ plan, file.Valid) {c k m : Nat} {s : WriterState}
    (writing : Writing plan strict index file task block c k s) (scoop : c < 4096)
    (fits : ((k + m : Nat) : Int) ≤ task.nonces) {buffer : Memory}
    (gathered : s.writeBuffer = transposition block buffer c k m)
    (position : s.position = 64 * (c * file.nonces.toNat + (task.offset file + k)))
    (choice : Outcome) :
    (s.write choice (64 * m)).1 = choice.ok ∧
    Writing plan strict index file task block c k (s.write choice (64 * m)).2 ∧
    (choice.ok = true →
      Writing plan strict index file task block c (k + m) (s.write choice (64 * m)).2 ∧
      (s.write choice (64 * m)).2.position =
        64 * (c * file.nonces.toNat + (task.offset file + (k + m)))) := by
  obtain ⟨entry, opened, plotting⟩ := writing.opened
  obtain ⟨entry', plotting', slots⟩ := writing.written
  obtain rfl : entry = entry' := Option.some.inj (plotting.symm.trans plotting')
  have offset := writing.next.offset_eq valid writing.disk.sequence
  have within := writing.next.fits
  generalize done : (if choice.ok = true then 64 * m else min choice.amount (64 * m)) = count
  have bound : count ≤ 64 * m := by
    rw [← done]
    split <;> omega
  have disk := writing.disk.written valid writing.next plotting scoop fits bound position
  have kept : ∀ c' k' : Nat, c' < 4096 → (k' : Int) < task.nonces → c' < c ∨ c' = c ∧ k' < k →
      SlotHolds (entry.written s.position s.writeBuffer count)
        (c' * file.nonces.toNat + (task.offset file + k')) block c' k' := by
    intro c' k' scoop' lane earlier
    rw [position]
    refine (slots c' k' scoop' lane earlier).beside bound (by omega) (by omega) ?_
    rcases earlier with before | ⟨_, below⟩
    · exact .inl (by omega)
    · exact .inr (.inl (by omega))
  rw [WriterState.write_opened opened done]
  refine ⟨rfl, ⟨disk, writing.current, writing.next, writing.handle, _, Function.update_self ..,
    kept⟩, fun ok => ?_⟩
  rw [if_pos ok] at done
  subst done
  refine ⟨⟨disk, writing.current, writing.next, writing.handle, _, Function.update_self .., ?_⟩, ?_⟩
  · intro c' k' scoop' lane earlier
    by_cases before : c' < c ∨ c' = c ∧ k' < k
    · exact kept c' k' scoop' lane before
    · obtain ⟨rfl, below⟩ : c' = c ∧ k' < k + m := by omega
      have slot := slotHolds_written entry block buffer c' k
        (p := c' * file.nonces.toNat + (task.offset file + k)) (show k' - k < m by omega)
      rw [← gathered, ← position, show c' * file.nonces.toNat + (task.offset file + k) +
        (k' - k) = c' * file.nonces.toNat + (task.offset file + k') by omega,
        show k + (k' - k) = k' by omega] at slot
      exact slot
  · simp only [position]
    omega

/-! ## `perform_write_plot` -/

section Perform

variable (plan strict) in
/-- What the inner loop needs: nothing is left, or the file position is that of
the next lane. -/
def ChunkReady (index : Nat) (file : PlannedFile) (task : HasherTask) (block : Memory) (c : Nat)
    (nstart nonces : Int) (s : WriterState) : Prop :=
  nonces ≤ 0 ∧ Writing plan strict index file task block c task.nonces.toNat s ∨
  ∃ k : Nat, nstart = k ∧ nonces = task.nonces - k ∧ 0 < nonces ∧
    Writing plan strict index file task block c k s ∧
    s.position = 64 * (c * file.nonces.toNat + (task.offset file + k))

/-- Between two chunks the files are in order. -/
theorem ChunkReady.disk {c : Nat} {nstart nonces : Int} {s : WriterState}
    (ready : ChunkReady plan strict index file task block c nstart nonces s) :
    Disk plan strict s := by
  rcases ready with ⟨_, writing⟩ | ⟨_, _, _, _, writing, _⟩
  · exact writing.disk
  · exact writing.disk

/-- The inner loop writes the rest of a scoop, or fails. -/
theorem chunkLoop_verified (valid : ∀ file ∈ plan, file.Valid) {c : Nat} (scoop : c < 4096)
    (rounds : Nat) : ∀ {nstart nonces : Int} {s : WriterState}, nonces ≤ rounds →
      ChunkReady plan strict index file task block c nstart nonces s →
      Verified plan strict (fun ok s =>
        (ok = true → Writing plan strict index file task block c task.nonces.toNat s) ∧
        (ok = false → Attempting plan strict index file task block s))
        (chunkLoop c rounds nstart nonces) s := by
  have finished : ∀ {nstart nonces : Int} {s : WriterState}, nonces ≤ 0 →
      ChunkReady plan strict index file task block c nstart nonces s →
      Writing plan strict index file task block c task.nonces.toNat s := by
    rintro nstart nonces s none (⟨_, writing⟩ | ⟨_, _, _, some_left, _⟩)
    · exact writing
    · omega
  induction rounds with
  | zero =>
      intro nstart nonces s enough ready
      rw [chunkLoop]
      refine Verified.poll (fun _ => ready.disk.safe valid) fun _ _ _ => ?_
      exact ⟨fun _ => finished (by omega) ready, nofun⟩
  | succ rounds ih =>
      intro nstart nonces s enough ready
      rw [chunkLoop]
      refine Verified.poll (fun _ => ready.disk.safe valid) fun stop running _ => ?_
      by_cases none : nonces ≤ 0
      · rw [decide_eq_true none, Bool.or_true, if_pos rfl]
        exact ⟨fun _ => finished none ready, nofun⟩
      · have left : Poll.DataLeft (.chunk nonces) := by
          show 0 < nonces
          omega
        rw [running left, Bool.false_or, if_neg (by simpa using none)]
        obtain ⟨k, rfl, rfl, _, writing, position⟩ :
            ∃ k : Nat, nstart = k ∧ nonces = task.nonces - k ∧ 0 < nonces ∧
              Writing plan strict index file task block c k s ∧
              s.position = 64 * (c * file.nonces.toNat + (task.offset file + k)) := by
          rcases ready with ⟨nothing, _⟩ | some_left
          · exact absurd nothing none
          · exact some_left
        have bounded := (valid file (List.mem_of_getElem? writing.next.found)).bounded
        have offset := writing.next.offset_eq valid writing.disk.sequence
        have fits := writing.next.fits
        -- the chunk of this round, and the write buffer filled for it
        obtain ⟨m, chunk, bound⟩ : ∃ m : Nat, min (task.nonces - k) scoopsPerWrite = m ∧
            k + m ≤ task.nonces.toNat :=
          ⟨(min (task.nonces - k) scoopsPerWrite).toNat, by unfold scoopsPerWrite; omega,
            by unfold scoopsPerWrite; omega⟩
        rw [chunk, show ((m : Int) * 64).toNat = 64 * m by omega]
        refine always_perform.mpr ⟨writing.disk.guarded valid nofun nofun, fun gathering same => ?_⟩
        have content : gathering.block = block := same _ writing.current
        have filled : Writing plan strict index file task block c k
            (s.respond gathering (.gather c k m)).2 :=
          writing.of_eq rfl rfl rfl rfl rfl rfl rfl
        refine always_perform.mpr ⟨filled.disk.guarded valid nofun nofun, fun written _ => ?_⟩
        obtain ⟨answer, kept, advanced⟩ := filled.write valid scoop (by omega)
          (show transposition gathering.block s.writeBuffer c k m =
            transposition block s.writeBuffer c k m by rw [content]) position written.toOutcome
        have answered : ((s.respond gathering (.gather c k m)).2.respond written
            (.write (64 * m))).1 = written.ok := answer
        rw [answered]
        cases okEq : written.ok with
        | false => exact ⟨nofun, fun _ => kept.attempting⟩
        | true =>
            obtain ⟨further, moved⟩ := advanced okEq
            refine ih (by unfold scoopsPerWrite; omega) ?_
            by_cases last : task.nonces - k ≤ scoopsPerWrite
            · left
              have all : k + m = task.nonces.toNat := by omega
              rw [all] at further
              exact ⟨by omega, further⟩
            · right
              unfold scoopsPerWrite at chunk last ⊢
              exact ⟨k + m, by rw [toInt32_eq (by omega) (by omega)]; omega, by omega, by omega,
                further, moved⟩

/-- The byte offset of a scoop is that of its slots. -/
theorem scoopOffset_eq (valid : ∀ file ∈ plan, file.Valid) {earlier : List HasherTask}
    (sequence : Sequence plan earlier) (next : Continues plan earlier task index file) {c : Nat}
    (scoop : c < 4096) :
    scoopOffset file task c = 64 * (c * file.nonces.toNat + (task.offset file + 0)) := by
  obtain ⟨lower, upper⟩ := sequence.issued_le (PlannedFile.typed valid) next.found
  have bounded := (valid file (List.mem_of_getElem? next.found)).bounded
  have offset := next.offset_eq valid sequence
  have positive := next.positive
  have fits := next.fits
  have rows : c * file.nonces.toNat ≤ 4096 * file.nonces.toNat :=
    Nat.mul_le_mul_right _ (by omega)
  have product : (c : Int) * file.nonces = ((c * file.nonces.toNat : Nat) : Int) := by
    rw [Int.natCast_mul, Int.toNat_of_nonneg (by omega)]
  unfold scoopOffset toUInt64
  rw [product]
  omega

/-- A seek of the open file. -/
theorem Writing.seek {c k : Nat} {s : WriterState}
    (writing : Writing plan strict index file task block c k s) (choice : Outcome) (offset : Nat) :
    (s.seek choice offset).1 = choice.ok ∧
    Writing plan strict index file task block c k (s.seek choice offset).2 ∧
    (choice.ok = true → (s.seek choice offset).2.position = offset) := by
  obtain ⟨entry, opened, _⟩ := writing.opened
  have stateEq : s.seek choice offset =
      (choice.ok, { s with position := if choice.ok then offset else choice.amount }) := by
    unfold WriterState.seek
    rw [opened]
  rw [stateEq]
  exact ⟨rfl, writing.of_eq rfl rfl rfl rfl rfl rfl rfl, fun ok => if_pos ok⟩

/-- The outer loop writes the remaining scoops, or fails. -/
theorem scoopLoop_verified (valid : ∀ file ∈ plan, file.Valid) (rest : Nat) :
    ∀ {c : Nat} {s : WriterState}, c + rest = 4096 →
      Writing plan strict index file task block c 0 s →
      Verified plan strict (fun ok s =>
        (ok = true → Writing plan strict index file task block 4096 0 s) ∧
        (ok = false → Attempting plan strict index file task block s))
        (scoopLoop file task rest c) s := by
  induction rest with
  | zero =>
      intro c s count writing
      obtain rfl : c = 4096 := by omega
      rw [scoopLoop]
      refine Verified.poll (fun _ => writing.disk.safe valid) fun _ _ _ => ?_
      exact ⟨fun _ => writing, nofun⟩
  | succ rest ih =>
      intro c s count writing
      rw [scoopLoop]
      refine Verified.poll (fun _ => writing.disk.safe valid) fun stop running _ => ?_
      have left : Poll.DataLeft (.scoop c) := by
        show (c : Int) < 4096
        omega
      rw [running left, if_neg Bool.false_ne_true]
      refine always_perform.mpr ⟨writing.disk.guarded valid nofun nofun, fun choice _ => ?_⟩
      obtain ⟨answer, sought, moved⟩ := writing.seek choice.toOutcome (scoopOffset file task c)
      have answered : (s.respond choice (.seek (scoopOffset file task c))).1 = choice.ok := answer
      rw [answered]
      cases okEq : choice.ok with
      | false => exact ⟨nofun, fun _ => sought.attempting⟩
      | true =>
          have positive := writing.next.positive
          have position := (moved okEq).trans
            (scoopOffset_eq valid writing.disk.sequence writing.next (by omega))
          have ready : ChunkReady plan strict index file task block c 0 task.nonces
              (s.seek choice.toOutcome (scoopOffset file task c)).2 :=
            .inr ⟨0, rfl, by omega, positive, sought, position⟩
          rw [if_pos rfl]
          refine (chunkLoop_verified valid (by omega) task.nonces.toNat (by omega) ready).bind ?_
          intro ok final outcome
          cases ok with
          | false => exact ⟨nofun, fun _ => outcome.2 rfl⟩
          | true =>
              have following : (c : Int) + 1 = ((c + 1 : Nat) : Int) := by omega
              rw [following]
              exact ih (by omega) ((outcome.1 rfl).nextScoop (by omega))

/-- `perform_write_plot` writes the whole task, or fails. -/
theorem performWritePlot_verified (valid : ∀ file ∈ plan, file.Valid) {s : WriterState}
    (attempting : Attempting plan strict index file task block s) :
    Verified plan strict (fun ok s =>
      (ok = true → Writing plan strict index file task block 4096 0 s) ∧
      (ok = false → Attempting plan strict index file task block s))
      (performWritePlot file task) s := by
  rcases attempting.handle with closed | ⟨opened, present⟩
  · -- without an open file the first seek fails
    have scoops : scoopsPerPlot = 4095 + 1 := rfl
    rw [performWritePlot, scoops, scoopLoop]
    refine Verified.poll (fun _ => attempting.disk.safe valid) fun stop running _ => ?_
    rw [running (show (0 : Int) < 4096 by decide), if_neg Bool.false_ne_true]
    refine always_perform.mpr ⟨attempting.disk.guarded valid nofun nofun, fun choice _ => ?_⟩
    have answered : s.respond choice (.seek (scoopOffset file task 0)) = (false, s) := by
      unfold WriterState.respond WriterState.seek WriterState.opened
      rw [closed]
      rfl
    rw [answered]
    exact ⟨nofun, fun _ => attempting⟩
  · obtain ⟨entry, plotting⟩ := Option.isSome_iff_exists.mp present
    have writing : Writing plan strict index file task block 0 0 s :=
      ⟨attempting.disk, attempting.current, attempting.next, opened, entry, plotting,
        fun _ _ _ _ done => by omega⟩
    exact scoopLoop_verified valid scoopsPerPlot rfl writing

end Perform

/-! ## Opening and completing a file -/

/-- A longer file with the same beginning keeps its slots. -/
theorem SlotHolds.extend {entry longer : FileEntry} {q c k : Nat} {data : Memory}
    (slot : SlotHolds entry q data c k) (size : entry.size ≤ longer.size)
    (bytes : ∀ a : Nat, a < entry.size → longer.bytes a = entry.bytes a) :
    SlotHolds longer q data c k := by
  have inside := slot.inside
  exact ⟨by omega, fun b byte => (bytes _ (by omega)).trans (slot.bytes b byte)⟩

/-- `allocate` keeps what the file holds. -/
theorem Attempting.allocate {s : WriterState}
    (attempting : Attempting plan strict index file task block s) (choice : Outcome) (bytes : Nat) :
    Attempting plan strict index file task block (s.allocate choice bytes).2 := by
  obtain ⟨disk, current, next, handle⟩ := attempting
  have positive := next.positive
  have fits := next.fits
  have moved : Attempting plan strict index file task block
      { s with position := choice.amount } :=
    ⟨disk.of_eq rfl rfl rfl rfl rfl, current, next, handle⟩
  rcases handle with closed | ⟨opened, present⟩
  · have openedEq : s.opened = none := by
      unfold WriterState.opened
      rw [closed]
      rfl
    unfold WriterState.allocate
    rw [openedEq]
    exact ⟨disk, current, next, .inl closed⟩
  · obtain ⟨entry, plotting⟩ := Option.isSome_iff_exists.mp present
    have openedEq : s.opened = some (index, entry) := by
      unfold WriterState.opened
      rw [opened, Option.bind_some, plotting]
      rfl
    unfold WriterState.allocate
    simp only [openedEq]
    split
    · exact ⟨disk, current, next, .inr ⟨opened, present⟩⟩
    · rename_i grows
      split
      · refine ⟨disk.replace next.found (by omega) rfl rfl rfl rfl disk.within rfl ?_, current, next,
          .inr ⟨opened, ?_⟩⟩
        · intro some_issued other data member of c k scoop lane
          obtain ⟨old, oldPlotting, holds⟩ := disk.growing index file next.found some_issued
            (by omega)
          obtain rfl : entry = old := Option.some.inj (plotting.symm.trans oldPlotting)
          exact (holds other data member of c k scoop lane).extend (by simp only []; omega)
            fun a below => if_pos (by omega)
        · simp [Function.update_self]
      · exact moved

/-- Opening the file of the task in hand. -/
theorem Attempting.openFile {s : WriterState}
    (attempting : Attempting plan strict index file task block s) (closed : s.handle = none)
    (choice : Outcome) : Attempting plan strict index file task block
      (s.openFile choice index !(s.plotting index).isSome).2 := by
  obtain ⟨disk, current, next, handle⟩ := attempting
  have positive := next.positive
  have fits := next.fits
  unfold WriterState.openFile
  rw [closed, if_neg (by simp)]
  cases okEq : choice.ok with
  | false => exact ⟨disk, current, next, .inl closed⟩
  | true =>
      rw [if_neg (by simp)]
      cases plottingEq : s.plotting index with
      | none =>
          refine ⟨disk.replace next.found (by omega) rfl rfl rfl rfl disk.within rfl ?_, current,
            next, .inr ⟨rfl, ?_⟩⟩
          · intro some_issued
            obtain ⟨entry, plotting, _⟩ := disk.growing index file next.found some_issued (by omega)
            rw [plottingEq] at plotting
            cases plotting
          · simp [Function.update_self]
      | some entry =>
          exact ⟨disk.of_eq rfl rfl rfl rfl rfl, current, next, .inr ⟨rfl, by
            show (s.plotting index).isSome = true
            rw [plottingEq]
            rfl⟩⟩

/-- Opening and allocating keeps everything written. -/
theorem openPlotting_verified (valid : ∀ file ∈ plan, file.Valid) {s : WriterState}
    (attempting : Attempting plan strict index file task block s) :
    Verified plan strict (fun _ s => Attempting plan strict index file task block s)
      (openPlotting index file) s := by
  unfold openPlotting
  refine always_perform.mpr ⟨attempting.disk.guarded valid nofun nofun, fun _ _ => ?_⟩
  have answered : ∀ choice, s.respond choice .isOpen = (s.handle.isSome, s) := fun _ => rfl
  rw [answered]
  cases handleEq : s.handle with
  | some i => exact attempting
  | none =>
      refine always_perform.mpr ⟨attempting.disk.guarded valid nofun nofun, fun _ _ => ?_⟩
      refine always_perform.mpr ⟨attempting.disk.guarded valid nofun nofun, fun opening _ => ?_⟩
      have opened := attempting.openFile handleEq opening.toOutcome
      refine always_perform.mpr ⟨opened.disk.guarded valid nofun nofun, fun allocating _ => ?_⟩
      exact opened.allocate allocating.toOutcome _

/-- The file of the task in hand holds the tasks reported before. -/
theorem Writing.fileHolds {c k : Nat} {s : WriterState}
    (writing : Writing plan strict index file task block c k s) :
    ∃ entry, s.plotting index = some entry ∧ FileHolds entry file index s.finished := by
  have positive := writing.next.positive
  have fits := writing.next.fits
  obtain ⟨entry, plotting, _⟩ := writing.written
  refine ⟨entry, plotting, fun other data member of => ?_⟩
  have listed : other ∈ s.reported := List.mem_map_of_mem (f := Prod.fst) member
  have some_issued := issuedNonces_pos (fun _ => writing.disk.sequence.positive) listed of
  obtain ⟨old, oldPlotting, holds⟩ := writing.disk.growing index file writing.next.found some_issued
    (by omega)
  obtain rfl : entry = old := Option.some.inj (plotting.symm.trans oldPlotting)
  exact holds other data member of

/-- When all scoops are written the file holds the task as well. -/
theorem Writing.fileHolds_last {s : WriterState}
    (writing : Writing plan strict index file task block 4096 0 s) :
    ∃ entry, s.plotting index = some entry ∧
      FileHolds entry file index (s.finished ++ [(task, block)]) := by
  obtain ⟨entry, plotting, holds⟩ := writing.fileHolds
  obtain ⟨entry', plotting', slots⟩ := writing.written
  obtain rfl : entry = entry' := Option.some.inj (plotting.symm.trans plotting')
  refine ⟨entry, plotting, fun other data member of => ?_⟩
  rcases List.mem_append.mp member with old | new
  · exact holds other data old of
  · obtain ⟨rfl, rfl⟩ : other = task ∧ data = block := by simpa using new
    exact fun c k scoop lane => slots c k scoop lane (.inl scoop)

/-- The files after a task was reported whose data is in its file. -/
theorem Disk.report {s t : WriterState} {complete : Bool}
    {content : Option FileEntry} (disk : Disk plan strict s)
    (next : Continues plan s.reported task index file)
    (finished : t.finished = s.finished ++ [(task, block)])
    (plotting : ∀ i, i ≠ index → t.plotting i = s.plotting i)
    (final : ∀ i, i ≠ index → t.final i = s.final i)
    (submitted : t.submitted =
      Function.update s.submitted index (issuedNonces index s.reported + task.nonces))
    (within : WritesWithin plan t.history)
    (answers : submissions t.history = submissions s.history ++ [(complete, content)])
    (verdict : complete = true ↔ issuedNonces index s.reported + task.nonces = file.nonces)
    (whole : ∃ entry, content = some entry ∧ FileHolds entry file index t.finished ∧
      (complete = true → t.final index = some entry ∨ ¬strict ∧ t.plotting index = some entry) ∧
      (complete = false → t.plotting index = some entry)) : Disk plan strict t := by
  obtain ⟨entry, contentEq, holds, placeComplete, placeGrowing⟩ := whole
  have reported : t.reported = s.reported ++ [task] := by
    rw [WriterState.reported, finished, List.map_append]
    rfl
  have other_issued : ∀ i, i ≠ index → issuedNonces i t.reported = issuedNonces i s.reported := by
    intro i differ
    rw [reported, issuedNonces_append, issuedNonces_singleton, next.current, if_neg (by omega),
      Int.add_zero]
  have here_issued : issuedNonces index t.reported =
      issuedNonces index s.reported + task.nonces := by
    rw [reported, issuedNonces_append, issuedNonces_singleton, next.current, if_pos rfl]
  have other_holds : ∀ i other entry', i ≠ index → FileHolds entry' other i s.finished →
      FileHolds entry' other i t.finished := by
    intro i other entry' differ old task' data member of
    rw [finished] at member
    rcases List.mem_append.mp member with before | last
    · exact old task' data before of
    · obtain ⟨rfl, rfl⟩ : task' = task ∧ data = block := by simpa using last
      have := next.current
      omega
  constructor
  · rw [reported]
    exact .snoc disk.sequence next
  · intro i other foundOther some_issued below
    by_cases same : i = index
    · subst same
      obtain rfl : file = other := Option.some.inj (next.found.symm.trans foundOther)
      refine ⟨entry, placeGrowing ?_, holds⟩
      cases complete with
      | false => rfl
      | true =>
          have := verdict.mp rfl
          omega
    · rw [other_issued i same] at some_issued below
      obtain ⟨old, place, oldHolds⟩ := disk.growing i other foundOther some_issued below
      exact ⟨old, (plotting i same).trans place, other_holds i other old same oldHolds⟩
  · intro i other foundOther completed
    by_cases same : i = index
    · subst same
      obtain rfl : file = other := Option.some.inj (next.found.symm.trans foundOther)
      exact ⟨entry, placeComplete (verdict.mpr (by omega)), holds⟩
    · rw [other_issued i same] at completed
      obtain ⟨old, place, oldHolds⟩ := disk.complete i other foundOther completed
      rw [← plotting i same, ← final i same] at place
      exact ⟨old, place, other_holds i other old same oldHolds⟩
  · intro i other foundOther
    rw [submitted]
    by_cases same : i = index
    · subst same
      rw [Function.update_self, here_issued]
    · rw [Function.update_of_ne same, other_issued i same]
      exact disk.counted i other foundOther
  · exact within
  · rw [finished, answers]
    refine .snoc disk.answers next.current next.found verdict fun _ => ?_
    rw [← finished]
    exact ⟨entry, contentEq, holds⟩

/-- The state `report` leaves. -/
def WriterState.afterReport (s : WriterState) : WriterState :=
  { s with finished := s.finished ++ s.current.toList, current := none }

variable (plan strict) in
/-- The task in hand is in its file and has been submitted. -/
structure Reportable (index : Nat) (task : HasherTask) (block : Memory) (s : WriterState) :
    Prop where
  disk : Disk plan strict s.afterReport
  current : s.current = some (task, block)
  safe : Safe plan strict s
  handle : s.handle = none ∨ s.handle = some index ∧ (s.plotting index).isSome

/-- What was reported before is safe when it is safe with one task more. -/
theorem Disk.safe_before {s : WriterState} (valid : ∀ file ∈ plan, file.Valid)
    (disk : Disk plan strict s.afterReport) (current : s.current = some (task, block))
    (next : Continues plan s.reported task index file) : Safe plan strict s := by
  have after := disk.safe valid
  have finished : s.afterReport.finished = s.finished ++ [(task, block)] := by
    unfold WriterState.afterReport
    rw [current]
    rfl
  have reported : s.afterReport.reported = s.reported ++ [task] := by
    rw [WriterState.reported, finished, List.map_append]
    rfl
  have positive := next.positive
  have restrict : ∀ {i other entry}, FileHolds entry other i s.afterReport.finished →
      FileHolds entry other i s.finished := by
    intro i other entry holds task' data member of
    exact holds task' data (by rw [finished]; exact List.mem_append_left _ member) of
  constructor
  · intro i other found some_issued
    obtain ⟨entry, place, holds⟩ := after.stored i other found (by
      rw [reported, issuedNonces_append, issuedNonces_singleton]
      split <;> omega)
    exact ⟨entry, place, restrict holds⟩
  · intro isStrict i other found complete
    have differ : i ≠ index := by
      rintro rfl
      obtain rfl : file = other := Option.some.inj (next.found.symm.trans found)
      have fits := next.fits
      omega
    obtain ⟨entry, place, holds⟩ := after.complete isStrict i other found (by
      rw [reported, issuedNonces_append, issuedNonces_singleton, next.current, if_neg (by omega),
        Int.add_zero, complete])
    exact ⟨entry, place, restrict holds⟩
  · exact after.within

/-- The counter after a submission is exact. -/
theorem Attempting.submitNonces (valid : ∀ file ∈ plan, file.Valid) {s : WriterState}
    (attempting : Attempting plan strict index file task block s) :
    Pipeline.submitNonces (s.submitted index) file.nonces task.nonces =
      (decide (issuedNonces index s.reported + task.nonces = file.nonces),
        issuedNonces index s.reported + task.nonces) := by
  have next := attempting.next
  obtain ⟨lower, upper⟩ := attempting.disk.sequence.issued_le (PlannedFile.typed valid) next.found
  have bounded := (valid file (List.mem_of_getElem? next.found)).bounded
  have positive := next.positive
  have fits := next.fits
  rw [attempting.disk.counted index file next.found]
  unfold Pipeline.submitNonces
  rw [toInt64_eq (by omega) (by omega)]

/-- A completed file may be renamed. -/
private theorem renamable_of_complete {s t : WriterState} {entry : FileEntry}
    (writing : Writing plan strict index file task block 4096 0 s)
    (complete : issuedNonces index s.reported + task.nonces = file.nonces)
    (holds : FileHolds entry file index (s.finished ++ s.current.toList))
    (plotting : t.plotting index = some entry) (finished : t.finished = s.finished)
    (current : t.current = s.current) : Renamable plan index t := by
  have tasks : (s.finished ++ s.current.toList).map Prod.fst = s.reported ++ [task] := by
    rw [writing.current, List.map_append]
    rfl
  refine ⟨file, entry, writing.next.found, plotting, ?_, ?_, ?_⟩
  · rw [finished, current, tasks]
    exact .snoc writing.disk.sequence writing.next
  · rw [finished, current, tasks, issuedNonces_append, issuedNonces_singleton,
      writing.next.current, if_pos rfl, complete]
  · rw [finished, current]
    exact holds

namespace WriterState

variable (s : WriterState) (choice : Outcome) (i : Nat)

@[simp] theorem rename_finished : (s.rename choice i).2.finished = s.finished := by
  unfold rename
  split
  · split <;> rfl
  · rfl

@[simp] theorem rename_current : (s.rename choice i).2.current = s.current := by
  unfold rename
  split
  · split <;> rfl
  · rfl

@[simp] theorem rename_handle : (s.rename choice i).2.handle = s.handle := by
  unfold rename
  split
  · split <;> rfl
  · rfl

end WriterState

/-- The rename of a completed file. -/
private theorem renamed_reportable (valid : ∀ file ∈ plan, file.Valid) {s t : WriterState}
    (writing : Writing plan strict index file task block 4096 0 s) (choice : Outcome)
    (permitted : strict → choice.ok = true) {entry : FileEntry}
    (complete : issuedNonces index s.reported + task.nonces = file.nonces)
    (holds : FileHolds entry file index (s.finished ++ s.current.toList))
    (plotting : t.plotting = s.plotting) (plottingHere : s.plotting index = some entry)
    (final : t.final = s.final) (finished : t.finished = s.finished)
    (current : t.current = s.current) (handle : t.handle = none)
    (submitted : t.submitted =
      Function.update s.submitted index (issuedNonces index s.reported + task.nonces))
    (within : WritesWithin plan t.history)
    (answers : submissions t.history = submissions s.history ++ [(true, some entry)]) :
    Reportable plan strict index task block (t.rename choice index).2 := by
  have here : t.plotting index = some entry := by rw [plotting, plottingHere]
  have inHand : t.current = some (task, block) := by rw [current, writing.current]
  have extended : t.finished ++ t.current.toList = s.finished ++ [(task, block)] := by
    rw [finished, inHand]
    rfl
  have extendedHere : s.finished ++ s.current.toList = s.finished ++ [(task, block)] := by
    rw [writing.current]
    rfl
  rw [extendedHere] at holds
  have renamed : ∀ ok : Bool, ∀ i o b,
      WriterEvent.wrote i o b ∈ t.history ++ [.renamed ok] → .wrote i o b ∈ t.history := by
    intro ok i o b event
    simpa using event
  have answered : ∀ ok : Bool, submissions (t.history ++ [.renamed ok]) =
      submissions s.history ++ [(true, some entry)] := by
    intro ok
    rw [submissions_append, answers]
    exact List.append_nil _
  have disk : Disk plan strict (t.rename choice index).2.afterReport := by
    unfold WriterState.rename
    rw [here]
    cases okEq : choice.ok with
    | true =>
        refine writing.disk.report writing.next extended (fun i differ => ?_) (fun i differ => ?_)
          submitted (fun i o b event => within i o b (renamed true i o b event)) (answered true)
          ⟨fun _ => complete, fun _ => rfl⟩ ?_
        · exact (Function.update_of_ne differ ..).trans (congrFun plotting i)
        · exact (Function.update_of_ne differ ..).trans (congrFun final i)
        · exact ⟨entry, rfl, by
            show FileHolds entry file index (t.finished ++ t.current.toList)
            rwa [extended], fun _ => .inl (Function.update_self ..), nofun⟩
    | false =>
        have lax : ¬strict := fun isStrict => by simp [permitted isStrict] at okEq
        refine writing.disk.report writing.next extended (fun i _ => congrFun plotting i)
          (fun i _ => congrFun final i) submitted
          (fun i o b event => within i o b (renamed false i o b event)) (answered false)
          ⟨fun _ => complete, fun _ => rfl⟩ ?_
        exact ⟨entry, rfl, by
          show FileHolds entry file index (t.finished ++ t.current.toList)
          rwa [extended], fun _ => .inr ⟨lax, here⟩, nofun⟩
  have inHandAfter : (t.rename choice index).2.current = some (task, block) := by
    rw [t.rename_current, inHand]
  have next : Continues plan (t.rename choice index).2.reported task index file := by
    rw [WriterState.reported, t.rename_finished, finished]
    exact writing.next
  exact ⟨disk, inHandAfter, disk.safe_before valid inHandAfter next, .inl (by
    rw [t.rename_handle, handle])⟩

/-- One attempt: the task is in its file and submitted, or nothing is lost. -/
theorem attemptWrite_verified (valid : ∀ file ∈ plan, file.Valid) {s : WriterState}
    (attempting : Attempting plan strict index file task block s) :
    Verified plan strict (fun ok s =>
      (ok = true → Reportable plan strict index task block s) ∧
      (ok = false → Attempting plan strict index file task block s))
      (attemptWrite index file task) s := by
  unfold attemptWrite
  refine (openPlotting_verified valid attempting).bind fun _ s attempting => ?_
  refine (performWritePlot_verified valid attempting).bind fun ok s outcome => ?_
  cases ok with
  | false =>
      have failed := outcome.2 rfl
      refine always_perform.mpr ⟨failed.disk.guarded valid nofun nofun, fun _ _ => ?_⟩
      exact ⟨nofun, fun _ =>
        ⟨failed.disk.of_eq rfl rfl rfl rfl rfl, failed.current, failed.next, .inl rfl⟩⟩
  | true =>
      have writing := outcome.1 rfl
      obtain ⟨entry, plotting, holds⟩ := writing.fileHolds_last
      have next := writing.next
      have positive := next.positive
      have fits := next.fits
      have counted := writing.attempting.submitNonces valid
      have current := writing.current
      have extended : s.finished ++ s.current.toList = s.finished ++ [(task, block)] := by
        rw [current]
        rfl
      rw [← extended] at holds
      refine always_perform.mpr ⟨writing.disk.guarded valid nofun nofun, fun submitting _ => ?_⟩
      have answer : ∀ choice, s.respond choice (.submit index task.nonces file.nonces) =
          (decide (issuedNonces index s.reported + task.nonces = file.nonces), { s with
            submitted := Function.update s.submitted index
              (issuedNonces index s.reported + task.nonces)
            history := s.history ++ [.submitted
              (decide (issuedNonces index s.reported + task.nonces = file.nonces))
              (some entry)] }) := by
        intro choice
        show s.submit index task.nonces file.nonces = _
        unfold WriterState.submit
        rw [counted, plotting]
      rw [answer]
      have within : ∀ {history : List WriterEvent}, (∀ i o b, .wrote i o b ∉ history) →
          WritesWithin plan (s.history ++ history) := by
        intro history none i o b event
        rcases List.mem_append.mp event with old | new
        · exact writing.disk.within i o b old
        · exact absurd new (none i o b)
      by_cases complete : issuedNonces index s.reported + task.nonces = file.nonces
      · rw [decide_eq_true complete, if_pos rfl]
        have safe : ∀ {t : WriterState}, t.plotting = s.plotting → t.final = s.final →
            t.finished = s.finished → WritesWithin plan t.history → Safe plan strict t :=
          fun plotting final finished within =>
            (writing.disk.safe valid).of_eq plotting final finished within
        refine always_perform.mpr ⟨⟨fun _ => safe rfl rfl rfl (within (by simp)), nofun, nofun⟩,
          fun _ _ => ?_⟩
        refine always_perform.mpr ⟨⟨fun _ => safe rfl rfl rfl (within (by simp)), ?_, nofun⟩,
          fun choice permitted => ?_⟩
        · rintro i ⟨⟩
          exact renamable_of_complete writing complete holds plotting rfl rfl
        · refine ⟨fun _ => ?_, nofun⟩
          exact renamed_reportable valid writing choice.toOutcome permitted complete holds rfl
            plotting rfl rfl rfl rfl rfl (within (by simp)) (submissions_append ..)
      · rw [decide_eq_false complete, if_neg Bool.false_ne_true]
        refine ⟨fun _ => ?_, nofun⟩
        have disk : Disk plan strict (WriterState.afterReport { s with
            submitted := Function.update s.submitted index
              (issuedNonces index s.reported + task.nonces)
            history := s.history ++ [.submitted false (some entry)] }) := by
          refine writing.disk.report next extended (fun _ _ => rfl) (fun _ _ => rfl) rfl
            (within (by simp)) (submissions_append ..) (by simpa using complete) ?_
          exact ⟨entry, rfl, holds, nofun, fun _ => plotting⟩
        exact ⟨disk, current, disk.safe_before valid current next,
          .inr ⟨writing.handle, by show (s.plotting index).isSome = true; rw [plotting]; rfl⟩⟩

end HyperPlotter.Pipeline
