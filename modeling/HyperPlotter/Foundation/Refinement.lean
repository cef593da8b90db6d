import HyperPlotter.Foundation.Interaction

/-!
# Requests carried out by calls

The requests of a program may themselves be carried out by programs, which make calls
of a lower level and keep an object from one request to the next. When every request is
carried out as under some choice its environment is allowed, what always holds of the
program holds below as well. A discipline restricts which requests follow each other,
so that the lower level need not carry out the others.
-/

namespace HyperPlotter.Foundation

variable {Request : Type} {Reply : Request → Type} {Mode : Type} {α β : Type}

/-! ## Disciplines -/

/-- Which requests may be made in a mode, and the mode a reply leads to. -/
structure Discipline (Request : Type) (Reply : Request → Type) (Mode : Type) where
  permits : Mode → Request → Prop
  after : Mode → (request : Request) → Reply request → Mode

namespace Discipline

variable (discipline : Discipline Request Reply Mode)

/-- A program keeps to the discipline whatever the replies are, and ends in `post`. -/
def Keeps (post : α → Mode → Prop) : Interaction Request Reply α → Mode → Prop
  | .done result, mode => post result mode
  | .ask request next, mode => discipline.permits mode request ∧
      ∀ reply, Keeps post (next reply) (discipline.after mode request reply)

variable {discipline} {post : α → Mode → Prop} {mode : Mode}

@[simp] theorem keeps_pure {result : α} :
    discipline.Keeps post (pure result) mode ↔ post result mode := Iff.rfl

/-- The rule for one request. -/
theorem keeps_perform {request : Request} {next : Reply request → Interaction Request Reply α} :
    discipline.Keeps post (Interaction.perform request >>= next) mode ↔
      discipline.permits mode request ∧
        ∀ reply, discipline.Keeps post (next reply) (discipline.after mode request reply) := Iff.rfl

/-- A weaker postcondition follows. -/
theorem Keeps.mono {weaker : α → Mode → Prop} {program : Interaction Request Reply α}
    (keeps : discipline.Keeps post program mode)
    (weaken : ∀ result mode, post result mode → weaker result mode) :
    discipline.Keeps weaker program mode := by
  induction program generalizing mode with
  | done result => exact weaken result mode keeps
  | ask request next ih => exact ⟨keeps.1, fun reply => ih reply (keeps.2 reply)⟩

/-- The rule for sequencing. -/
theorem Keeps.bind {middle : α → Mode → Prop} {post : β → Mode → Prop}
    {program : Interaction Request Reply α} {next : α → Interaction Request Reply β}
    (first : discipline.Keeps middle program mode)
    (second : ∀ result mode, middle result mode → discipline.Keeps post (next result) mode) :
    discipline.Keeps post (program >>= next) mode := by
  induction program generalizing mode with
  | done result => exact second result mode first
  | ask request answered ih => exact ⟨first.1, fun reply => ih reply (first.2 reply)⟩

end Discipline

/-! ## Carrying requests out -/

namespace Interaction

variable {Call : Type} {Answer : Call → Type} {Object : Type}

/-- The program with its requests carried out on an object. -/
def carryOut (implement : (request : Request) → Object →
      Interaction Call Answer (Reply request × Object)) :
    Interaction Request Reply α → Object → Interaction Call Answer (α × Object)
  | .done result, object => .done (result, object)
  | .ask request next, object => implement request object >>= fun answer =>
      carryOut implement (next answer.1) answer.2

variable {State Choice Lower Below : Type}

/-- Every permitted request is carried out as under a choice its environment is allowed. -/
def Refines (discipline : Discipline Request Reply Mode)
    (implement : (request : Request) → Object → Interaction Call Answer (Reply request × Object))
    (respond : Choice → State → (request : Request) → Reply request × State)
    (allowed : State → Request → Choice → Prop)
    (answer : Below → Lower → (call : Call) → Answer call × Lower)
    (documented : Lower → Call → Below → Prop) (proper : Lower → Call → Prop)
    (Related : Mode → State → Object → Lower → Prop) : Prop :=
  ∀ {mode state object lower} (request : Request), Related mode state object lower →
    discipline.permits mode request →
    Always answer documented proper (fun result after => ∃ choice, allowed state request choice ∧
      (respond choice state request).1 = result.1 ∧
      Related (discipline.after mode request result.1) (respond choice state request).2 result.2
        after) (implement request object) lower

variable {discipline : Discipline Request Reply Mode}
  {implement : (request : Request) → Object → Interaction Call Answer (Reply request × Object)}
  {respond : Choice → State → (request : Request) → Reply request × State}
  {allowed : State → Request → Choice → Prop} {check : State → Request → Prop}
  {answer : Below → Lower → (call : Call) → Answer call × Lower}
  {documented : Lower → Call → Below → Prop} {proper : Lower → Call → Prop}
  {Related : Mode → State → Object → Lower → Prop}

/-- What always holds of a program that keeps to the discipline holds of it carried out. -/
theorem Refines.always
    (refines : Refines discipline implement respond allowed answer documented proper Related)
    {post : α → State → Prop} {ends : α → Mode → Prop} {program : Interaction Request Reply α}
    {mode : Mode} {state : State} {object : Object} {lower : Lower}
    (related : Related mode state object lower) (keeps : discipline.Keeps ends program mode)
    (always : Always respond allowed check post program state) :
    Always answer documented proper (fun result after => ∃ mode state, ends result.1 mode ∧
      post result.1 state ∧ Related mode state result.2 after)
      (program.carryOut implement object) lower := by
  induction program generalizing mode state object lower with
  | done result => exact ⟨mode, state, keeps, always, related⟩
  | ask request next ih =>
      refine (refines request related keeps.1).bind fun result after carried => ?_
      obtain ⟨choice, permitted, same, further⟩ := carried
      have later := always.2 choice permitted
      rw [same] at later
      exact ih result.1 further (keeps.2 result.1) later

/-- Every permitted request keeps what is known of the object and of the lower level. -/
def Maintains (discipline : Discipline Request Reply Mode)
    (implement : (request : Request) → Object → Interaction Call Answer (Reply request × Object))
    (answer : Below → Lower → (call : Call) → Answer call × Lower)
    (documented : Lower → Call → Below → Prop) (proper : Lower → Call → Prop)
    (Known : Mode → Object → Lower → Prop) : Prop :=
  ∀ {mode object lower} (request : Request), Known mode object lower →
    discipline.permits mode request →
    Always answer documented proper (fun result after =>
      Known (discipline.after mode request result.1) result.2 after) (implement request object) lower

/-- It is known after a program that keeps to the discipline, whatever the replies are. -/
theorem Maintains.always {Known : Mode → Object → Lower → Prop}
    (maintains : Maintains discipline implement answer documented proper Known)
    {ends : α → Mode → Prop} {program : Interaction Request Reply α} {mode : Mode} {object : Object}
    {lower : Lower} (known : Known mode object lower) (keeps : discipline.Keeps ends program mode) :
    Always answer documented proper (fun result after => ∃ mode, ends result.1 mode ∧
      Known mode result.2 after) (program.carryOut implement object) lower := by
  induction program generalizing mode object lower with
  | done result => exact ⟨mode, keeps, known⟩
  | ask request next ih =>
      refine (maintains request known keeps.1).bind fun result after further => ?_
      exact ih result.1 further (keeps.2 result.1)

end Interaction

end HyperPlotter.Foundation
