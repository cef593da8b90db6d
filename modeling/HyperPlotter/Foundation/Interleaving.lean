import Mathlib.Logic.Function.Basic
import HyperPlotter.Foundation.Interaction
import HyperPlotter.Foundation.Machine

/-!
# Programs side by side

Programs share a state, and a request of one of them is served at a time. Programs are
separate when each has a part of the state its requests read and change and no request
of another one does. What separate programs leave does then not depend on the order
their requests are served in: every program leaves what it leaves when it runs by itself.
-/

namespace HyperPlotter.Foundation.Interaction

variable {Request : Type} {Reply : Request → Type} {State α β ι : Type}
  (serve : State → (request : Request) → Reply request × State)

/-- A program that runs by itself. -/
def alone : Interaction Request Reply α → State → α × State
  | .done result, state => (result, state)
  | .ask request next, state =>
    alone (next (serve state request).1) (serve state request).2

@[simp] theorem alone_pure (result : α) (state : State) :
    alone serve (pure result : Interaction Request Reply α) state = (result, state) := rfl

@[simp] theorem alone_ask (request : Request) (next : Reply request → Interaction Request Reply α)
    (state : State) : alone serve (.ask request next) state =
      alone serve (next (serve state request).1) (serve state request).2 := rfl

@[simp] theorem alone_perform (request : Request) (state : State) :
    alone serve (perform request) state = serve state request := rfl

/-- Two programs one after the other. -/
@[simp] theorem alone_bind (program : Interaction Request Reply α)
    (next : α → Interaction Request Reply β) (state : State) :
    alone serve (program >>= next) state =
      alone serve (next (alone serve program state).1) (alone serve program state).2 := by
  induction program generalizing state with
  | done result => rfl
  | ask request answered ih =>
      rw [ask_bind, alone_ask, alone_ask]
      exact ih _ _

/-- Programs that have come some way on a shared state. -/
structure SideBySide (State : Type) (Request : Type) (Reply : Request → Type) (α ι : Type) where
  state : State
  programs : ι → Interaction Request Reply α

/-- The programs side by side; an event is the program whose request is next. -/
def sideBySide [DecidableEq ι] (state : State) (programs : ι → Interaction Request Reply α) :
    Machine (SideBySide State Request Reply α ι) ι where
  Start s := s = ⟨state, programs⟩
  step s i :=
    match s.programs i with
    | .done _ => none
    | .ask request next =>
      some
        { state := (serve s.state request).2
          programs := Function.update s.programs i (next (serve s.state request).1) }

/-- All programs are done. -/
def SideBySide.Finished (s : SideBySide State Request Reply α ι) : Prop :=
  ∀ i, ∃ result, s.programs i = .done result

/-- Every program has a part of the state to itself: its own requests are answered from
it and change it, the others' leave it alone. -/
structure Separate (mine : ι → Request → Prop) (Part : ι → Type) (part : (i : ι) → State → Part i) :
    Prop where
  answers : ∀ {i request s t}, mine i request → part i s = part i t →
    (serve s request).1 = (serve t request).1
  effects : ∀ {i request s t}, mine i request → part i s = part i t →
    part i (serve s request).2 = part i (serve t request).2
  others : ∀ {i j request s}, mine i request → j ≠ i → part j (serve s request).2 = part j s

variable {serve} {mine : ι → Request → Prop} {Part : ι → Type} {part : (i : ι) → State → Part i}

/-- A program by itself depends on its own part. -/
theorem Separate.alone_congr (separate : Separate serve mine Part part) {i : ι}
    {program : Interaction Request Reply α} (only : program.Only (mine i)) {s t : State}
    (same : part i s = part i t) :
    (alone serve program s).1 = (alone serve program t).1 ∧
      part i (alone serve program s).2 = part i (alone serve program t).2 := by
  induction program generalizing s t with
  | done result => exact ⟨rfl, same⟩
  | ask request next ih =>
      rw [alone_ask, alone_ask, separate.answers only.1 same]
      exact ih _ (only.2 _) (separate.effects only.1 same)

section Runs

variable [DecidableEq ι] {start : State} {programs : ι → Interaction Request Reply α}

/-- What a step does. -/
theorem sideBySide_step {s t : SideBySide State Request Reply α ι} {i : ι}
    (taken : (sideBySide serve start programs).step s i = some t) :
    ∃ request next, s.programs i = .ask request next ∧ t.state = (serve s.state request).2 ∧
      t.programs i = next (serve s.state request).1 ∧ ∀ j, j ≠ i → t.programs j = s.programs j := by
  simp only [sideBySide] at taken
  split at taken
  · cases taken
  · rename_i request next asks
    obtain rfl := Option.some.inj taken
    exact ⟨request, next, asks, rfl, Function.update_self .., fun j other =>
      Function.update_of_ne other ..⟩

/-- Every program has still to do what it would have done by itself. -/
def OnCourse (serve : State → (request : Request) → Reply request × State)
    (mine : ι → Request → Prop) (part : (i : ι) → State → Part i) (start : State)
    (programs : ι → Interaction Request Reply α) (s : SideBySide State Request Reply α ι) : Prop :=
  ∀ i, (s.programs i).Only (mine i) ∧
    (alone serve (s.programs i) s.state).1 = (alone serve (programs i) start).1 ∧
    part i (alone serve (s.programs i) s.state).2 = part i (alone serve (programs i) start).2

/-- Side by side, every program with a part of its own is on the course it takes alone. -/
theorem Separate.onCourse (separate : Separate serve mine Part part)
    (only : ∀ i, (programs i).Only (mine i)) {s : SideBySide State Request Reply α ι}
    (reached : (sideBySide serve start programs).Reachable s) :
    OnCourse serve mine part start programs s := by
  refine reached.invariant _ ?_ ?_
  · rintro _ rfl i
    exact ⟨only i, rfl, rfl⟩
  · intro s i t _ before _ taken j
    obtain ⟨request, next, asks, state, mover, others⟩ := sideBySide_step taken
    obtain ⟨mineOnly, _, _⟩ := before i
    rw [asks] at mineOnly
    by_cases same : j = i
    · subst same
      obtain ⟨_, answer, left⟩ := before j
      rw [asks, alone_ask] at answer left
      rw [state, mover]
      exact ⟨mineOnly.2 _, answer, left⟩
    · obtain ⟨otherOnly, answer, left⟩ := before j
      have kept : part j t.state = part j s.state := by
        rw [state]
        exact separate.others mineOnly.1 same
      obtain ⟨sameAnswer, sameLeft⟩ := separate.alone_congr otherOnly kept
      rw [others j same, sameAnswer, sameLeft]
      exact ⟨otherOnly, answer, left⟩

/-- A finished program leaves its part as it would have by itself. -/
theorem Separate.finished (separate : Separate serve mine Part part)
    (only : ∀ i, (programs i).Only (mine i)) {s : SideBySide State Request Reply α ι}
    (reached : (sideBySide serve start programs).Reachable s) (finished : s.Finished) (i : ι) :
    part i s.state = part i (alone serve (programs i) start).2 := by
  obtain ⟨_, _, left⟩ := separate.onCourse only reached i
  obtain ⟨result, done⟩ := finished i
  rw [done] at left
  exact left

/-- What no request of a program changes stays. -/
theorem sideBySide_frame (only : ∀ i, (programs i).Only (mine i)) (rest : State → β)
    (frame : ∀ {i request s}, mine i request → rest (serve s request).2 = rest s)
    {s : SideBySide State Request Reply α ι}
    (reached : (sideBySide serve start programs).Reachable s) : rest s.state = rest start := by
  have kept : (∀ i, (s.programs i).Only (mine i)) ∧ rest s.state = rest start := by
    refine reached.invariant (fun s => (∀ i, (s.programs i).Only (mine i)) ∧
      rest s.state = rest start) ?_ ?_
    · rintro _ rfl
      exact ⟨only, rfl⟩
    · rintro s i t _ ⟨before, same⟩ _ taken
      obtain ⟨request, next, asks, state, mover, others⟩ := sideBySide_step taken
      have mineOnly := before i
      rw [asks] at mineOnly
      refine ⟨fun j => ?_, ?_⟩
      · by_cases here : j = i
        · subst here
          rw [mover]
          exact mineOnly.2 _
        · rw [others j here]
          exact before j
      · rw [state, frame mineOnly.1, same]
  exact kept.2

/-- A program can be brought to its end while the others wait. -/
theorem sideBySide_finish {s : SideBySide State Request Reply α ι}
    (reached : (sideBySide serve start programs).Reachable s) (i : ι) :
    ∃ t : SideBySide State Request Reply α ι,
      (sideBySide serve start programs).Reachable t ∧
      t.state = (alone serve (s.programs i) s.state).2 ∧ (∃ result, t.programs i = .done result) ∧
      ∀ j, j ≠ i → t.programs j = s.programs j := by
  generalize known : s.programs i = program
  induction program generalizing s with
  | done result => exact ⟨s, reached, rfl, ⟨result, known⟩, fun _ _ => rfl⟩
  | ask request next ih =>
      have taken : (sideBySide serve start programs).step s i = some
          ⟨(serve s.state request).2,
            Function.update s.programs i (next (serve s.state request).1)⟩ := by
        simp only [sideBySide, known]
      obtain ⟨t, later, left, done, others⟩ :=
        ih _ (.step reached trivial taken) (Function.update_self ..)
      refine ⟨t, later, left, done, fun j other => ?_⟩
      rw [others j other]
      exact Function.update_of_ne other ..

/-- The programs of `order` can be run one after the other. -/
private theorem sideBySide_foldl {s : SideBySide State Request Reply α ι}
    (reached : (sideBySide serve start programs).Reachable s) {order : List ι}
    (distinct : order.Nodup) (untouched : ∀ i ∈ order, s.programs i = programs i)
    (complete : ∀ i, i ∈ order ∨ ∃ result, s.programs i = .done result) :
    ∃ t : SideBySide State Request Reply α ι,
      (sideBySide serve start programs).Reachable t ∧ t.Finished ∧
      t.state = order.foldl (fun state i => (alone serve (programs i) state).2) s.state := by
  induction order generalizing s with
  | nil => exact ⟨s, reached, fun i => (complete i).resolve_left (by simp), rfl⟩
  | cons i rest ih =>
      obtain ⟨fresh, restDistinct⟩ := List.nodup_cons.mp distinct
      obtain ⟨t, later, left, done, others⟩ := sideBySide_finish reached i
      have waiting : ∀ j ∈ rest, t.programs j = programs j := by
        intro j member
        have other : j ≠ i := fun same => fresh (same ▸ member)
        rw [others j other]
        exact untouched j (List.mem_cons_of_mem i member)
      have covered : ∀ j, j ∈ rest ∨ ∃ result, t.programs j = .done result := by
        intro j
        by_cases same : j = i
        · subst same
          exact .inr done
        · rw [others j same]
          exact (complete j).imp_left fun member => (List.mem_cons.mp member).resolve_left same
      obtain ⟨final, ends, finished, state⟩ := ih later restDistinct waiting covered
      refine ⟨final, ends, finished, ?_⟩
      rw [state, left, untouched i List.mem_cons_self, List.foldl_cons]

variable (serve start programs) in
/-- One program after the other is one way to finish. -/
theorem sideBySide_oneByOne {order : List ι} (distinct : order.Nodup)
    (complete : ∀ i, i ∈ order) :
    ∃ t : SideBySide State Request Reply α ι,
      (sideBySide serve start programs).Reachable t ∧ t.Finished ∧
      t.state = order.foldl (fun state i => (alone serve (programs i) state).2) start :=
  sideBySide_foldl (s := ⟨start, programs⟩) (.start rfl) distinct (fun _ _ => rfl)
    fun i => .inl (complete i)

/-- When the state is the parts and a rest that no program touches, the order of the
requests does not matter: the programs leave what they leave one after the other. -/
theorem Separate.serializes (separate : Separate serve mine Part part)
    (only : ∀ i, (programs i).Only (mine i)) (rest : State → β)
    (frame : ∀ {i request s}, mine i request → rest (serve s request).2 = rest s)
    (ext : ∀ {s t}, (∀ i, part i s = part i t) → rest s = rest t → s = t)
    {s : SideBySide State Request Reply α ι}
    (reached : (sideBySide serve start programs).Reachable s) (finished : s.Finished)
    {order : List ι} (distinct : order.Nodup) (complete : ∀ i, i ∈ order) :
    s.state = order.foldl (fun state i => (alone serve (programs i) state).2) start := by
  obtain ⟨t, ends, done, state⟩ := sideBySide_oneByOne serve start programs distinct complete
  rw [← state]
  apply ext
  · intro i
    rw [separate.finished only reached finished i, separate.finished only ends done i]
  · rw [sideBySide_frame only rest frame reached, sideBySide_frame only rest frame ends]

end Runs

end HyperPlotter.Foundation.Interaction
