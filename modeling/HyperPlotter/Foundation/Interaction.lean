/-!
# Programs that ask their environment

A program is the tree of its requests. An environment answers a request by a
choice of its own, which decides the reply and the next state. `Always` is the
rule a program is verified by: its assertion holds before every request, its
postcondition when it is done. `Throughout` asserts something of the program left as
well. `exec` is the run under one sequence of choices.
-/

namespace HyperPlotter.Foundation

/-- A program whose every effect is a request. -/
inductive Interaction (Request : Type) (Reply : Request → Type) (Result : Type) where
  | done (result : Result)
  | ask (request : Request) (next : Reply request → Interaction Request Reply Result)

namespace Interaction

variable {Request : Type} {Reply : Request → Type} {α β : Type}

/-- Continue with the result. -/
protected def bind : Interaction Request Reply α → (α → Interaction Request Reply β) →
    Interaction Request Reply β
  | .done result, next => next result
  | .ask request answered, next => .ask request fun reply => (answered reply).bind next

instance : Monad (Interaction Request Reply) where
  pure := .done
  bind := Interaction.bind

/-- A single request. -/
def perform (request : Request) : Interaction Request Reply (Reply request) :=
  .ask request .done

@[simp] theorem ask_bind (request : Request) (answered : Reply request → Interaction Request Reply α)
    (next : α → Interaction Request Reply β) :
    Interaction.ask request answered >>= next =
      .ask request fun reply => answered reply >>= next := rfl

@[simp] theorem perform_bind (request : Request)
    (next : Reply request → Interaction Request Reply β) :
    (perform request >>= next) = .ask request next := rfl

/-- The program makes permitted requests only. -/
def Only (permitted : Request → Prop) : Interaction Request Reply α → Prop
  | .done _ => True
  | .ask request next => permitted request ∧ ∀ reply, (next reply).Only permitted

/-- The rule for one request. -/
theorem Only.perform {permitted : Request → Prop} {request : Request}
    {next : Reply request → Interaction Request Reply β} (here : permitted request)
    (rest : ∀ reply, (next reply).Only permitted) :
    (Interaction.perform request >>= next).Only permitted := ⟨here, rest⟩

/-- The rule for sequencing. -/
theorem Only.bind {permitted : Request → Prop} {program : Interaction Request Reply α}
    {next : α → Interaction Request Reply β} (first : program.Only permitted)
    (second : ∀ result, (next result).Only permitted) : (program >>= next).Only permitted := by
  induction program with
  | done result => exact second result
  | ask request answered ih => exact ⟨first.1, fun reply => ih reply (first.2 reply)⟩

/-- A wider permission. -/
theorem Only.mono {permitted wider : Request → Prop} {program : Interaction Request Reply α}
    (only : program.Only permitted) (widen : ∀ request, permitted request → wider request) :
    program.Only wider := by
  induction program with
  | done result => trivial
  | ask request answered ih => exact ⟨widen request only.1, fun reply => ih reply (only.2 reply)⟩

variable {State Choice : Type} (respond : Choice → State → (request : Request) →
  Reply request × State)

section Rules

variable (allowed : State → Request → Choice → Prop) (check : State → Request → Prop)

/-- `check` holds before every request and `post` at the end, whatever allowed
choices the environment makes. -/
def Always (post : α → State → Prop) : Interaction Request Reply α → State → Prop
  | .done result, state => post result state
  | .ask request next, state => check state request ∧ ∀ choice, allowed state request choice →
      Always post (next (respond choice state request).1) (respond choice state request).2

variable {respond allowed check}

@[simp] theorem always_done {post : α → State → Prop} {result : α} {state : State} :
    Always respond allowed check post (.done result) state ↔ post result state := Iff.rfl

@[simp] theorem always_pure {post : α → State → Prop} {result : α} {state : State} :
    Always respond allowed check post (pure result) state ↔ post result state := Iff.rfl

/-- The rule for one request. -/
theorem always_perform {post : β → State → Prop} {request : Request}
    {next : Reply request → Interaction Request Reply β} {state : State} :
    Always respond allowed check post (perform request >>= next) state ↔
      check state request ∧ ∀ choice, allowed state request choice →
        Always respond allowed check post (next (respond choice state request).1)
          (respond choice state request).2 := Iff.rfl

/-- A weaker postcondition follows. -/
theorem Always.mono {post weaker : α → State → Prop} {program : Interaction Request Reply α}
    {state : State} (always : Always respond allowed check post program state)
    (weaken : ∀ result final, post result final → weaker result final) :
    Always respond allowed check weaker program state := by
  induction program generalizing state with
  | done result => exact weaken result state always
  | ask request next ih =>
      exact ⟨always.1, fun choice permitted => ih _ (always.2 choice permitted)⟩

/-- What holds under all allowed choices holds under fewer. -/
theorem Always.restrict {narrower : State → Request → Choice → Prop} {post : α → State → Prop}
    {program : Interaction Request Reply α} {state : State}
    (always : Always respond allowed check post program state)
    (fewer : ∀ state request choice, narrower state request choice →
      allowed state request choice) : Always respond narrower check post program state := by
  induction program generalizing state with
  | done result => exact always
  | ask request next ih =>
      exact ⟨always.1, fun choice permitted => ih _ (always.2 choice (fewer _ _ _ permitted))⟩

/-- The rule for sequencing: the first part establishes what the second needs. -/
theorem Always.bind {middle : α → State → Prop} {post : β → State → Prop}
    {program : Interaction Request Reply α} {next : α → Interaction Request Reply β}
    {state : State} (first : Always respond allowed check middle program state)
    (second : ∀ result final, middle result final →
      Always respond allowed check post (next result) final) :
    Always respond allowed check post (program >>= next) state := by
  induction program generalizing state with
  | done result => exact second result state first
  | ask request answered ih =>
      exact ⟨first.1, fun choice permitted => ih _ (first.2 choice permitted)⟩

/-- Nothing to check and nothing to establish. -/
theorem always_trivial (program : Interaction Request Reply α) (state : State) :
    Always respond allowed (fun _ _ => True) (fun _ _ => True) program state := by
  induction program generalizing state with
  | done result => trivial
  | ask request next ih => exact ⟨trivial, fun _ _ => ih _ _⟩

/-- A program that makes harmless requests only. -/
theorem Only.always {permitted : Request → Prop} {program : Interaction Request Reply α}
    (only : program.Only permitted) (harmless : ∀ state request, permitted request →
      check state request) (state : State) :
    Always respond allowed check (fun _ _ => True) program state := by
  induction program generalizing state with
  | done result => trivial
  | ask request next ih => exact ⟨harmless state request only.1, fun _ _ => ih _ (only.2 _) _⟩

/-- What the permitted requests of a program keep holds throughout, and checks
what it implies. -/
theorem Only.keeps {permitted : Request → Prop} (invariant : State → Prop)
    {program : Interaction Request Reply α} (only : program.Only permitted) {state : State}
    (start : invariant state)
    (kept : ∀ choice state request, permitted request → allowed state request choice →
      invariant state → invariant (respond choice state request).2)
    (checked : ∀ state request, permitted request → invariant state → check state request) :
    Always respond allowed check (fun _ => invariant) program state := by
  induction program generalizing state with
  | done result => exact start
  | ask request next ih =>
      exact ⟨checked state request only.1 start, fun choice meets =>
        ih _ (only.2 _) (kept choice state request only.1 meets start)⟩

variable (respond allowed) in
/-- `holds` of the program left and the state at every moment, whatever allowed
choices the environment makes. -/
def Throughout (holds : Interaction Request Reply α → State → Prop) :
    Interaction Request Reply α → State → Prop
  | .done result, state => holds (.done result) state
  | .ask request next, state => holds (.ask request next) state ∧
      ∀ choice, allowed state request choice →
        Throughout holds (next (respond choice state request).1) (respond choice state request).2

section

variable {holds : Interaction Request Reply β → State → Prop}

/-- It holds now. -/
theorem Throughout.now {program : Interaction Request Reply β} {state : State}
    (throughout : Throughout respond allowed holds program state) : holds program state := by
  cases program with
  | done result => exact throughout
  | ask request next => exact throughout.1

/-- The rule for one request. -/
theorem throughout_perform {request : Request}
    {next : Reply request → Interaction Request Reply β} {state : State} :
    Throughout respond allowed holds (perform request >>= next) state ↔
      holds (.ask request next) state ∧ ∀ choice, allowed state request choice →
        Throughout respond allowed holds (next (respond choice state request).1)
          (respond choice state request).2 := Iff.rfl

/-- The rule for sequencing: `holds` may depend on how the first part goes on. -/
theorem Always.throughout {middle : α → State → Prop} {program : Interaction Request Reply α}
    {next : α → Interaction Request Reply β} {state : State}
    (first : Always respond allowed check middle program state)
    (along : ∀ request (answered : Reply request → Interaction Request Reply α) state,
      check state request → holds (.ask request fun reply => answered reply >>= next) state)
    (second : ∀ result final, middle result final →
      Throughout respond allowed holds (next result) final) :
    Throughout respond allowed holds (program >>= next) state := by
  induction program generalizing state with
  | done result => exact second result state first
  | ask request answered ih =>
      exact ⟨along request answered state first.1,
        fun choice permitted => ih _ (first.2 choice permitted)⟩

end

end Rules

/-- The run under the choices from number `i` on: result, final state, and the
number of the next choice. -/
def exec (choices : Nat → Choice) : Interaction Request Reply α → State → Nat → α × State × Nat
  | .done result, state, i => (result, state, i)
  | .ask request next, state, i =>
    let answer := respond (choices i) state request
    exec choices (next answer.1) answer.2 (i + 1)

variable {respond} {choices : Nat → Choice}

/-- One request of a run. -/
theorem exec_ask (request : Request) (next : Reply request → Interaction Request Reply α)
    (state : State) (i : Nat) : exec respond choices (.ask request next) state i =
      exec respond choices (next (respond (choices i) state request).1)
        (respond (choices i) state request).2 (i + 1) := rfl

/-- The run of two programs one after the other. -/
theorem exec_bind (program : Interaction Request Reply α)
    (next : α → Interaction Request Reply β) (state : State) (i : Nat) :
    exec respond choices (program >>= next) state i =
      exec respond choices (next (exec respond choices program state i).1)
        (exec respond choices program state i).2.1 (exec respond choices program state i).2.2 := by
  induction program generalizing state i with
  | done result => rfl
  | ask request answered ih =>
      rw [ask_bind, exec_ask, exec_ask]
      exact ih _ _ _

/-- A run ends in the postcondition when its choices are allowed in every state
with an invariant the program's requests keep. -/
theorem Always.exec {allowed : State → Request → Choice → Prop} {check : State → Request → Prop}
    {post : α → State → Prop} {permitted : Request → Prop} (invariant : State → Prop)
    {program : Interaction Request Reply α} {state : State} {i : Nat}
    (always : Always respond allowed check post program state) (only : program.Only permitted)
    (start : invariant state)
    (keeps : ∀ j, i ≤ j → ∀ state request, permitted request → invariant state →
      invariant (respond (choices j) state request).2)
    (fits : ∀ j, i ≤ j → ∀ state request, permitted request → invariant state →
      allowed state request (choices j)) :
    post (exec respond choices program state i).1 (exec respond choices program state i).2.1 ∧
      invariant (exec respond choices program state i).2.1 := by
  induction program generalizing state i with
  | done result => exact ⟨always, start⟩
  | ask request next ih =>
      have here := fits i (Nat.le_refl i) state request only.1 start
      rw [exec_ask]
      exact ih _ (always.2 _ here) (only.2 _)
        (keeps i (Nat.le_refl i) state request only.1 start)
        (fun j later => keeps j (by omega)) (fun j later => fits j (by omega))

/-- What permitted requests keep, the run of a program of such requests keeps. -/
theorem Only.exec {permitted : Request → Prop} (invariant : State → Prop)
    {program : Interaction Request Reply α} (only : program.Only permitted) {state : State}
    (start : invariant state) (i : Nat)
    (keeps : ∀ choice state request, permitted request → invariant state →
      invariant (respond choice state request).2) :
    invariant (exec respond choices program state i).2.1 := by
  induction program generalizing state i with
  | done result => exact start
  | ask request next ih =>
      rw [exec_ask]
      exact ih _ (only.2 _) (keeps _ state request only.1 start) _

variable (respond choices) in
/-- Choices are used in order. -/
theorem exec_position (program : Interaction Request Reply α) (state : State) (i : Nat) :
    i ≤ (exec respond choices program state i).2.2 := by
  induction program generalizing state i with
  | done result => exact Nat.le_refl i
  | ask request next ih =>
      rw [exec_ask]
      exact Nat.le_trans (Nat.le_succ i) (ih _ _ _)

end Interaction

end HyperPlotter.Foundation
