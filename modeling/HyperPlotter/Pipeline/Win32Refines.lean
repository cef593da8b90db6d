import HyperPlotter.Pipeline.Win32File

/-!
# `util::file` carries out the writer's requests

A writer that seeks before it writes and closes before it renames cannot tell
`util::file` over Win32 from the file operations of `WriterState`: whatever the calls
do, each request ends as under some outcome of its operation.
-/

namespace HyperPlotter.Pipeline

open Foundation Poc Interaction

/-! ## Where a writer stands with its file -/

/-- Nothing is known, or no file is open, or the file pointer is where it was set. -/
inductive FileMode where
  | any
  | closed
  | placed

/-- Data is written after a `seek` that succeeded, and a file renamed after a `close`. -/
def fileDiscipline : Discipline WriterRequest WriterRequest.Reply FileMode where
  permits
    | mode, .write bytes => mode = .placed ∧ bytes < 4294967296
    | mode, .rename _ => mode = .closed
    | _, .seek offset => offset < 18446744073709551616
    | _, .allocate bytes => bytes < 18446744073709551616
    | _, _ => True
  after
    | _, .openFile .., _ => .any
    | _, .allocate _, _ => .any
    | _, .seek _, ok => if ok = true then .placed else .any
    | _, .closeFile, _ => .closed
    | mode, _, _ => mode

/-- A writer's state but for its file handle. -/
def WriterState.data (s : WriterState) : WriterState :=
  { s with handle := none, position := 0, history := [] }

/-- The object has the only handle there is, and it is on the writer's file. -/
structure HandleOn (s : WriterState) (osfile : File) (c : Win32) (handle : Nat) (opened : OpenFile)
    (entry : FileEntry) : Prop where
  held : osfile.handle = some handle
  handles : c.handles = Function.update (fun _ => none) handle (some opened)
  there : c.plotting opened.file = some entry
  file : s.handle = some opened.file

/-- The writer's state and the system's agree. -/
structure Related (mode : FileMode) (s : WriterState) (osfile : File) (c : Win32) : Prop where
  data : s.data = c.view
  closed : osfile.handle = none → s.handle = none ∧ ∀ handle, c.handles handle = none
  opened : ∀ handle, osfile.handle = some handle → ∃ opened entry,
    HandleOn s osfile c handle opened entry ∧ (mode = .placed → s.position = opened.pointer)
  shut : mode = .closed → osfile.handle = none

/-- What is allowed does not depend on the file handle, nor on how a file operation ends,
`rename` apart. -/
structure Lenient (allowed : WriterState → WriterRequest → Choice → Prop) : Prop where
  data : ∀ {s request choice}, allowed s.data request choice → allowed s request choice
  isOpen : ∀ s choice, allowed s .isOpen choice
  fileExists : ∀ s file choice, allowed s (.fileExists file) choice
  openFile : ∀ s file create choice, allowed s (.openFile file create) choice
  allocate : ∀ s bytes choice, allowed s (.allocate bytes) choice
  seek : ∀ s offset choice, allowed s (.seek offset) choice
  write : ∀ s bytes choice, allowed s (.write bytes) choice
  closeFile : ∀ s choice, allowed s .closeFile choice

variable {allowed : WriterState → WriterRequest → Choice → Prop}
  {possible : Win32 → Win32Call → Win32Choice → Prop}

/-- `Always` for the calls of a writer. -/
abbrev OnWin32 {α : Type} (possible : Win32 → Win32Call → Win32Choice → Prop)
    (post : α → Win32 → Prop) (program : Win32Program α) (c : Win32) : Prop :=
  Always Win32.respond possible Win32.Proper post program c

/-- A request is carried out as under an allowed choice. -/
def CarriedOut (allowed : WriterState → WriterRequest → Choice → Prop) (mode : FileMode)
    (s : WriterState) (request : WriterRequest) (result : request.Reply × File) (c : Win32) : Prop :=
  ∃ choice, allowed s request choice ∧ (s.respond choice request).1 = result.1 ∧
    Related (fileDiscipline.after mode request result.1) (s.respond choice request).2 result.2 c

namespace HandleOn

variable {mode : FileMode} {s : WriterState} {osfile : File} {c : Win32} {handle : Nat}
  {opened : OpenFile} {entry : FileEntry}

/-- The handle is open. -/
theorem handles_self (holding : HandleOn s osfile c handle opened entry) :
    c.handles handle = some opened := by
  rw [holding.handles, Function.update_self]

/-- The handle and the file behind it. -/
theorem opened_eq (holding : HandleOn s osfile c handle opened entry) :
    c.opened handle = some (opened, entry) := by
  rw [Win32.opened, holding.handles_self, Option.bind_some, holding.there, Option.map_some]

/-- The handle may be used. -/
theorem proper (holding : HandleOn s osfile c handle opened entry) : (c.opened handle).isSome :=
  Option.isSome_of_eq_some holding.opened_eq

/-- The handle and the file behind it are as before. -/
theorem of_eq (holding : HandleOn s osfile c handle opened entry) {t : WriterState} {after : File}
    {d : Win32} (held : after.handle = osfile.handle) (handles : d.handles = c.handles)
    (plotting : d.plotting = c.plotting) (file : t.handle = s.handle) :
    HandleOn t after d handle opened entry where
  held := held.trans holding.held
  handles := handles.trans holding.handles
  there := by rw [plotting, holding.there]
  file := file.trans holding.file

/-- Another state of the handle and of the file behind it. -/
theorem replace (holding : HandleOn s osfile c handle opened entry) {t : WriterState}
    {after : File} (held : after.handle = osfile.handle) (file : t.handle = s.handle)
    (opened' : OpenFile) (same : opened'.file = opened.file) (entry' : FileEntry) (lastError : Nat) :
    HandleOn t after { c.replace handle opened' entry' with lastError := lastError } handle opened'
      entry' where
  held := held.trans holding.held
  handles := by
    show Function.update c.handles handle (some opened') = _
    rw [holding.handles, Function.update_idem]
  there := Function.update_self ..
  file := by rw [file, holding.file, same]

/-- Another position of the file pointer. -/
theorem move (holding : HandleOn s osfile c handle opened entry) {t : WriterState} {after : File}
    (held : after.handle = osfile.handle) (file : t.handle = s.handle) (offset lastError : Nat) :
    HandleOn t after { c with
        handles := Function.update c.handles handle (some { opened with pointer := offset })
        lastError := lastError } handle { opened with pointer := offset } entry where
  held := held.trans holding.held
  handles := by rw [holding.handles, Function.update_idem]
  there := holding.there
  file := file.trans holding.file

/-- The writer may be anywhere in its file. -/
theorem anywhere (holding : HandleOn s osfile c handle opened entry) (data : s.data = c.view) :
    Related .any s osfile c where
  data := data
  closed none := nomatch holding.held.symm.trans none
  opened number held := by
    obtain rfl := Option.some.inj (holding.held.symm.trans held)
    exact ⟨opened, entry, holding, nofun⟩
  shut := nofun

/-- The writer is where the file pointer is. -/
theorem placed (holding : HandleOn s osfile c handle opened entry) (data : s.data = c.view)
    (position : s.position = opened.pointer) : Related .placed s osfile c where
  data := data
  closed none := nomatch holding.held.symm.trans none
  opened number held := by
    obtain rfl := Option.some.inj (holding.held.symm.trans held)
    exact ⟨opened, entry, holding, fun _ => position⟩
  shut := nofun

/-- The writer may be the one that sees the files as they are. -/
theorem exists_related (holding : HandleOn s osfile c handle opened entry) :
    ∃ t, Related .any t osfile c :=
  ⟨{ c.view with handle := some opened.file },
    anywhere ⟨holding.held, holding.handles, holding.there, rfl⟩ rfl⟩

end HandleOn

namespace Related

variable {mode : FileMode} {s : WriterState} {osfile : File} {c : Win32}

/-- The `.plotting` files agree. -/
theorem plotting (related : Related mode s osfile c) : s.plotting = c.plotting :=
  congrArg WriterState.plotting related.data

/-- The final files agree. -/
theorem final (related : Related mode s osfile c) : s.final = c.final :=
  congrArg WriterState.final related.data

/-- The write buffers agree. -/
theorem writeBuffer (related : Related mode s osfile c) : s.writeBuffer = c.writeBuffer :=
  congrArg WriterState.writeBuffer related.data

/-- The counters agree. -/
theorem submitted (related : Related mode s osfile c) : s.submitted = c.submitted :=
  congrArg WriterState.submitted related.data

/-- The task in hand is the same. -/
theorem current (related : Related mode s osfile c) : s.current = c.current :=
  congrArg WriterState.current related.data

/-- The finished tasks are the same. -/
theorem finished (related : Related mode s osfile c) : s.finished = c.finished :=
  congrArg WriterState.finished related.data

/-- The object and the writer agree on whether a file is open. -/
theorem handle_isSome (related : Related mode s osfile c) :
    s.handle.isSome = osfile.handle.isSome := by
  cases held : osfile.handle with
  | none => rw [(related.closed held).1]
  | some handle =>
      obtain ⟨opened, entry, holding, _⟩ := related.opened handle held
      rw [holding.file]
      rfl

/-- Less is known. -/
theorem forget (related : Related mode s osfile c) : Related .any s osfile c where
  data := related.data
  closed := related.closed
  opened := by
    intro handle held
    obtain ⟨opened, entry, holding, _⟩ := related.opened handle held
    exact ⟨opened, entry, holding, nofun⟩
  shut := nofun

/-- No file is open. -/
theorem of_closed (data : s.data = c.view) (held : osfile.handle = none) (handle : s.handle = none)
    (handles : ∀ handle, c.handles handle = none) : Related mode s osfile c where
  data := data
  closed _ := ⟨handle, handles⟩
  opened _ same := absurd (held.symm.trans same) nofun
  shut _ := held

/-- The error code does not matter, nor what the object remembers of it. -/
theorem errors (related : Related mode s osfile c) (error lastError : Nat) :
    Related mode s { osfile with error := error } { c with lastError := lastError } where
  data := related.data
  closed := related.closed
  opened handle held := by
    obtain ⟨opened, entry, holding, placed⟩ := related.opened handle held
    exact ⟨opened, entry, holding.of_eq rfl rfl rfl rfl, placed⟩
  shut := related.shut

end Related

/-! ## Requests to other threads -/

/-- What a writer asks other threads. -/
def WriterRequest.OfThread : WriterRequest → Prop
  | .stopped _ | .pop | .gather .. | .submit .. | .report => True
  | _ => False

/-- Other threads do not see the file handle, and leave it and the files alone. -/
theorem WriterState.respond_ofThread {request : WriterRequest} (ofThread : request.OfThread)
    (choice : Choice) (s : WriterState) :
    (s.respond choice request).1 = (s.data.respond choice request).1 ∧
    (s.respond choice request).2.data = (s.data.respond choice request).2.data ∧
    (s.respond choice request).2.plotting = s.plotting ∧
    (s.respond choice request).2.final = s.final ∧
    (s.respond choice request).2.handle = s.handle ∧
    (s.respond choice request).2.position = s.position := by
  cases request with
  | stopped | pop | gather | submit | report => exact ⟨rfl, rfl, rfl, rfl, rfl, rfl⟩
  | _ => exact ofThread.elim

section

variable {mode : FileMode} {s : WriterState} {osfile : File} {c : Win32}

private theorem after_ofThread {request : WriterRequest} (ofThread : request.OfThread)
    (reply : request.Reply) : fileDiscipline.after mode request reply = mode := by
  cases request with
  | stopped | pop | gather | submit | report => rfl
  | _ => exact ofThread.elim

/-- A request to another thread is a single call. -/
theorem carriedOut_thread (lenient : Lenient allowed) (related : Related mode s osfile c)
    {request : WriterRequest} (ofThread : request.OfThread) {choice : Win32Choice}
    (permitted : allowed c.view request choice.toChoice) :
    CarriedOut allowed mode s request ((c.respond choice (.thread request)).1, osfile)
      (c.respond choice (.thread request)).2 := by
  obtain ⟨reply, data, plotting, final, handle, position⟩ :=
    WriterState.respond_ofThread ofThread choice.toChoice s
  obtain ⟨_, _, viewPlotting, viewFinal, _, _⟩ :=
    WriterState.respond_ofThread ofThread choice.toChoice c.view
  rw [related.data] at reply data
  refine ⟨choice.toChoice, lenient.data (related.data ▸ permitted), reply, ?_⟩
  rw [after_ofThread ofThread]
  constructor
  · refine data.trans ?_
    unfold WriterState.data
    rw [viewPlotting, viewFinal]
    rfl
  · rw [handle]
    exact related.closed
  · intro number held
    obtain ⟨opened, entry, holding, placed⟩ := related.opened number held
    exact ⟨opened, entry, holding.of_eq rfl rfl rfl handle,
      fun same => position.trans (placed same)⟩
  · exact related.shut

/-- A request to another thread is carried out. -/
theorem carry_thread (lenient : Lenient allowed)
    (documented : ∀ c call choice, possible c call choice → c.Documented allowed call choice)
    (related : Related mode s osfile c) {request : WriterRequest} (ofThread : request.OfThread) :
    OnWin32 possible (CarriedOut allowed mode s request) (carry request osfile) c := by
  cases request with
  | stopped | pop | gather | submit | report =>
      exact always_perform.mpr ⟨trivial, fun choice permitted =>
        carriedOut_thread lenient related ofThread (documented c _ choice permitted)⟩
  | _ => exact ofThread.elim

/-! ## Files by their names -/

/-- Some choice, for a request whose answer does not depend on it. -/
private def noChoice : Choice := ⟨⟨true, 0, fun _ => 0⟩, false, fun _ => 0, none⟩

private theorem attributes_directory (attributes : Word) :
    ((attributes ||| fileAttributeDirectory) != invalidFileAttributes &&
      (attributes ||| fileAttributeDirectory) &&& fileAttributeDirectory == 0) = false := by
  have bit : (attributes ||| fileAttributeDirectory) &&& fileAttributeDirectory =
      fileAttributeDirectory := by
    ext i
    simpa using fun set => .inr set
  rw [bit]
  simp [fileAttributeDirectory]

private theorem attributes_file (attributes : Word) :
    ((attributes &&& ~~~fileAttributeDirectory) != invalidFileAttributes &&
      (attributes &&& ~~~fileAttributeDirectory) &&& fileAttributeDirectory == 0) = true := by
  have bit : (attributes &&& ~~~fileAttributeDirectory) &&& fileAttributeDirectory = 0 := by
    rw [BitVec.and_assoc]
    simp
  rw [bit]
  simp
  intro same
  rw [same] at bit
  exact absurd bit (by decide)

private theorem attributes_invalid : (invalidFileAttributes != invalidFileAttributes &&
    invalidFileAttributes &&& fileAttributeDirectory == 0) = false := by
  simp

/-- `exists` is carried out on files that can be read. -/
theorem carry_fileExists (lenient : Lenient allowed)
    (readable : ∀ c call choice, possible c call choice → c.Readable call choice)
    (related : Related mode s osfile c) (file : Nat) :
    OnWin32 possible (CarriedOut allowed mode s (.fileExists file))
      (carry (.fileExists file) osfile) c := by
  refine always_perform.mpr ⟨trivial, fun choice able => ?_⟩
  have read : (c.plotting file).isSome → choice.ok = true := readable c _ choice able
  have there : (s.plotting file).isSome = (c.plotting file).isSome := by rw [related.plotting]
  refine ⟨noChoice, lenient.fileExists s file _, there.trans ?_, ?_⟩
  · simp only [Win32.respond]
    cases present : (c.plotting file).isSome with
    | true =>
        rw [if_pos (read present)]
        exact (attributes_file choice.attributes).symm
    | false =>
        split
        · exact (attributes_directory choice.attributes).symm
        · exact attributes_invalid.symm
  · simp only [Win32.respond]
    split
    · exact related
    · exact related.errors osfile.error _

/-- Whatever the attributes are, looking for a file changes nothing. -/
theorem fileExists_related (related : Related mode s osfile c) (file : Nat) :
    OnWin32 possible (fun result after => Related mode s result.2 after)
      (carry (.fileExists file) osfile) c := by
  refine always_perform.mpr ⟨trivial, fun choice _ => ?_⟩
  simp only [Win32.respond]
  split
  · exact related
  · exact related.errors osfile.error _

/-- The data of the writer and of the system, part by part. -/
theorem WriterState.data_eq_view {s : WriterState} {c : Win32} : s.data = c.view ↔
    s.plotting = c.plotting ∧ s.final = c.final ∧ s.writeBuffer = c.writeBuffer ∧
      s.submitted = c.submitted ∧ s.current = c.current ∧ s.finished = c.finished := by
  simp [WriterState.data, Win32.view]

/-- `rename` is carried out when no file is open. -/
theorem carry_rename (lenient : Lenient allowed)
    (documented : ∀ c call choice, possible c call choice → c.Documented allowed call choice)
    (related : Related mode s osfile c) (shut : mode = .closed) (file : Nat) :
    OnWin32 possible (CarriedOut allowed mode s (.rename file)) (carry (.rename file) osfile) c := by
  have held := related.shut shut
  obtain ⟨handle, handles⟩ := related.closed held
  refine always_perform.mpr ⟨handles, fun choice permitted => ?_⟩
  have permitted : allowed c.view (.rename file) choice.toChoice :=
    documented c _ choice permitted
  refine ⟨choice.toChoice, lenient.data (related.data ▸ permitted), ?_⟩
  have data := WriterState.data_eq_view.mp related.data
  simp only [WriterState.respond, WriterState.rename, Win32.respond, Win32.moveFileEx]
  rw [← data.1]
  cases s.plotting file with
  | none => exact ⟨rfl, .of_closed related.data held handle handles⟩
  | some entry =>
      dsimp only
      by_cases ok : choice.ok = true
      · rw [if_pos ok, if_pos ok]
        refine ⟨rfl, .of_closed (WriterState.data_eq_view.mpr ?_) held handle handles⟩
        exact ⟨rfl, congrArg (Function.update · file _) data.2.1, data.2.2⟩
      · rw [if_neg ok, if_neg ok]
        exact ⟨rfl, .of_closed related.data held handle handles⟩

/-! ## Opening and closing -/

namespace File

/-- A method that fails remembers the error. -/
theorem fails_spec {post : Bool × File → Win32 → Prop}
    (failed : post (false, { osfile with error := c.lastError }) c) :
    OnWin32 possible post osfile.fails c := always_perform.mpr ⟨trivial, fun _ _ => failed⟩

/-- A `flush` leaves nothing unflushed, or the system has given up on it. -/
theorem flush_spec {handle : Nat} {opened : OpenFile} {entry : FileEntry}
    (holding : HandleOn s osfile c handle opened entry) :
    OnWin32 possible (fun _ after => ∃ lastError, after = { c with
        handles := Function.update c.handles handle (some { opened with unflushed := false })
        lastError := lastError }) osfile.flush c := by
  unfold flush
  rw [holding.held]
  refine always_perform.mpr ⟨holding.proper, fun choice _ => ?_⟩
  have after : (c.respond choice (.flushFileBuffers handle)).2 = { c with
      handles := Function.update c.handles handle (some { opened with unflushed := false })
      lastError := if choice.ok then c.lastError else max 1 choice.error } := by
    simp only [Win32.respond, holding.handles_self, Option.map_some]
  rw [after]
  split
  · exact ⟨_, rfl⟩
  · exact fails_spec ⟨_, rfl⟩

/-- A `close` flushes the handle and gives it up. -/
theorem close_spec (related : Related mode s osfile c) :
    OnWin32 possible (fun result after => result.handle = none ∧ ∃ lastError, after = { c with
        handles := fun _ => none
        lastError := lastError }) osfile.close c := by
  unfold close
  cases held : osfile.handle with
  | none =>
      refine ⟨held, c.lastError, ?_⟩
      rw [← funext (related.closed held).2]
  | some handle =>
      obtain ⟨opened, entry, holding, _⟩ := related.opened handle held
      refine (flush_spec holding).bind fun flushed after same => ?_
      obtain ⟨lastError, rfl⟩ := same
      refine always_perform.mpr ⟨⟨_, Function.update_self .., rfl⟩, fun choice _ => ?_⟩
      refine ⟨rfl, lastError, ?_⟩
      simp only [Win32.respond, holding.handles, Function.update_idem]
      rw [Function.update_eq_self_iff.mpr rfl]

end File

/-- `close` is carried out. -/
theorem carry_closeFile (lenient : Lenient allowed) (related : Related mode s osfile c) :
    OnWin32 possible (CarriedOut allowed mode s .closeFile) (carry .closeFile osfile) c := by
  refine (File.close_spec related).bind fun closed after same => ?_
  obtain ⟨held, lastError, rfl⟩ := same
  exact ⟨noChoice, lenient.closeFile s _, rfl, .of_closed related.data held rfl fun _ => rfl⟩

/-- A file is opened with a new handle, at its start. -/
private theorem openFile_created (data : s.data = c.view) (handles : ∀ handle, c.handles handle = none)
    (file handle lastError : Nat) {plotting : Nat → Option FileEntry} {entry : FileEntry}
    (there : plotting file = some entry) :
    Related .any { s with plotting := plotting, handle := some file, position := 0 }
      { osfile with handle := some handle }
      { c with
        plotting := plotting
        handles := Function.update c.handles handle (some ⟨file, 0, false⟩)
        lastError := lastError } where
  data := WriterState.data_eq_view.mpr ⟨rfl, (WriterState.data_eq_view.mp data).2⟩
  closed held := nomatch held
  opened := by
    intro number same
    obtain rfl := Option.some.inj same
    refine ⟨⟨file, 0, false⟩, entry, ⟨rfl, ?_, there, rfl⟩, nofun⟩
    rw [← funext handles]
  shut := nofun

/-- `open` is carried out. -/
theorem carry_openFile (lenient : Lenient allowed) (related : Related mode s osfile c) (file : Nat)
    (create : Bool) :
    OnWin32 possible (CarriedOut allowed mode s (.openFile file create))
      (carry (.openFile file create) osfile) c := by
  simp only [carry, File.openFile]
  cases held : osfile.handle with
  | some handle =>
      have isOpen : s.handle.isSome = true := by rw [related.handle_isSome, held]; rfl
      refine ⟨noChoice, lenient.openFile s file create _, ?_⟩
      simp only [WriterState.respond, WriterState.openFile, isOpen, if_true]
      exact ⟨trivial, related.forget⟩
  | none =>
      obtain ⟨closed, handles⟩ := related.closed held
      have plotting := related.plotting
      refine always_perform.mpr ⟨handles, fun choice _ => ?_⟩
      have answered : c.respond choice (.createFile file create) =
          c.createFile choice file create := rfl
      rw [answered]
      by_cases made : (choice.ok && (c.handles choice.handle).isNone &&
          (create || (c.plotting file).isSome)) = true
      · have success := made
        simp only [Bool.and_eq_true, Bool.or_eq_true] at success
        rw [Win32.createFile, if_pos made]
        refine ⟨⟨⟨true, 0, choice.content⟩, false, choice.block, none⟩,
          lenient.openFile s file create _, ?_⟩
        simp only [WriterState.respond, WriterState.openFile, closed]
        cases create with
        | true =>
            refine ⟨rfl, ?_⟩
            simp only [if_true]
            rw [← plotting]
            exact openFile_created related.data handles file _ _ (Function.update_self ..)
        | false =>
            have there : (s.plotting file).isSome = true := by
              rw [plotting]
              exact success.2.resolve_left Bool.false_ne_true
            obtain ⟨entry, found⟩ := Option.isSome_iff_exists.mp there
            simp only [there, if_true]
            refine ⟨rfl, ?_⟩
            rw [← plotting]
            exact openFile_created related.data handles file _ c.lastError found
      · rw [Win32.createFile, if_neg made]
        refine File.fails_spec ⟨{ noChoice with ok := false }, lenient.openFile s file create _, ?_⟩
        simp only [WriterState.respond, WriterState.openFile, closed]
        exact ⟨rfl, (related.errors _ _).forget⟩

/-! ## The file pointer -/

/-- Two halves of an offset that is not negative as a 64-bit value. -/
private theorem quadPart_split {offset : Nat} (bound : offset < 18446744073709551616)
    (positive : 0 ≤ quadPart (offset % 4294967296) (toInt32 (offset / 4294967296))) :
    quadPart (offset % 4294967296) (toInt32 (offset / 4294967296)) = offset := by
  unfold quadPart toInt32 at positive ⊢
  omega

private theorem Win32.setFilePointer_moved {choice : Win32Choice} {handle low offset : Nat}
    {high : Int} {opened : OpenFile} (handles : c.handles handle = some opened)
    (ok : choice.ok = true) (quad : quadPart low high = offset) :
    c.setFilePointer choice handle low high = ((low, high), { c with
      handles := Function.update c.handles handle (some { opened with pointer := offset })
      lastError := if low = invalidSetFilePointer then 0 else c.lastError }) := by
  unfold setFilePointer
  simp only [handles, ok, quad, Int.natCast_nonneg, and_self, if_true, Int.toNat_natCast]

private theorem Win32.setFilePointer_stayed {choice : Win32Choice} {handle low : Nat} {high : Int}
    {opened : OpenFile} (handles : c.handles handle = some opened)
    (stayed : ¬(choice.ok = true ∧ 0 ≤ quadPart low high)) :
    c.setFilePointer choice handle low high =
      ((invalidSetFilePointer, choice.high), c.failing choice) := by
  unfold setFilePointer
  rw [handles]
  exact if_neg stayed

/-- The pointer is set, or it stays. -/
structure Pointed (osfile : File) (c : Win32) (handle offset : Nat) (opened : OpenFile)
    (result : Bool × File) (after : Win32) : Prop where
  held : result.2.handle = osfile.handle
  moved : result.1 = true → ∃ lastError, after = { c with
    handles := Function.update c.handles handle (some { opened with pointer := offset })
    lastError := lastError }
  stayed : result.1 = false → ∃ lastError, after = { c with lastError := lastError }

/-- `SetFilePointer` with the checks moves the pointer, or the method fails. -/
theorem File.setPointer_spec {handle offset : Nat} {opened : OpenFile} {entry : FileEntry}
    (bound : offset < 18446744073709551616) (holding : HandleOn s osfile c handle opened entry) :
    OnWin32 possible (Pointed osfile c handle offset opened) (osfile.setPointer handle offset) c := by
  refine always_perform.mpr ⟨holding.proper, fun choice _ => ?_⟩
  by_cases moved : choice.ok = true ∧
      0 ≤ quadPart (offset % 4294967296) (toInt32 (offset / 4294967296))
  · have quad := quadPart_split bound moved.2
    have answered : c.respond choice (.setFilePointer handle (offset % 4294967296)
        (toInt32 (offset / 4294967296))) = _ := Win32.setFilePointer_moved holding.handles_self moved.1 quad
    rw [answered]
    refine always_perform.mpr ⟨trivial, fun _ _ => ?_⟩
    have same : toUInt64 (quadPart (offset % 4294967296) (toInt32 (offset / 4294967296))) =
        offset := by
      rw [quad]
      exact toUInt64_natCast bound
    have noError : (offset % 4294967296 == invalidSetFilePointer &&
        (if offset % 4294967296 = invalidSetFilePointer then 0 else c.lastError) != 0) = false := by
      by_cases invalid : offset % 4294967296 = invalidSetFilePointer
      · simp [invalid]
      · simp [invalid]
    refine ⟨rfl, fun _ => ⟨_, rfl⟩, fun failed => ?_⟩
    simp only [Win32.respond, noError, same] at failed
    simp at failed
  · have answered : c.respond choice (.setFilePointer handle (offset % 4294967296)
        (toInt32 (offset / 4294967296))) = _ := Win32.setFilePointer_stayed holding.handles_self moved
    rw [answered]
    refine always_perform.mpr ⟨trivial, fun _ _ => ?_⟩
    have error : (max 1 choice.error != 0) = true := by
      simp
    refine ⟨rfl, fun ok => ?_, fun _ => ⟨_, rfl⟩⟩
    simp only [Win32.respond, Win32.failing, error] at ok
    simp at ok

/-- The writer's own view of its open file. -/
theorem HandleOn.writer_opened {handle : Nat} {opened : OpenFile} {entry : FileEntry}
    (holding : HandleOn s osfile c handle opened entry) (data : s.data = c.view) :
    s.opened = some (opened.file, entry) := by
  have plotting : s.plotting = c.plotting := congrArg WriterState.plotting data
  rw [WriterState.opened, holding.file, Option.bind_some, plotting, holding.there, Option.map_some]

/-- A file operation without a file. -/
theorem Related.opened_none (related : Related mode s osfile c) (held : osfile.handle = none) :
    s.opened = none := by
  rw [WriterState.opened, (related.closed held).1, Option.bind_none]

/-- `seek` is carried out. -/
theorem carry_seek (lenient : Lenient allowed) (related : Related mode s osfile c) {offset : Nat}
    (bound : offset < 18446744073709551616) :
    OnWin32 possible (CarriedOut allowed mode s (.seek offset)) (carry (.seek offset) osfile) c := by
  simp only [carry, File.seek]
  cases held : osfile.handle with
  | none =>
      refine ⟨noChoice, lenient.seek s offset _, ?_⟩
      simp only [WriterState.respond, WriterState.seek, related.opened_none held]
      exact ⟨trivial, related.forget⟩
  | some handle =>
      obtain ⟨opened, entry, holding, _⟩ := related.opened handle held
      refine (File.setPointer_spec bound holding).mono fun result after pointed => ?_
      cases outcome : result.1 with
      | true =>
          obtain ⟨lastError, rfl⟩ := pointed.moved outcome
          refine ⟨noChoice, lenient.seek s offset _, ?_⟩
          simp only [WriterState.respond, WriterState.seek, holding.writer_opened related.data]
          refine ⟨outcome.symm, ?_⟩
          rw [outcome]
          refine HandleOn.placed (holding.move pointed.held ?_ offset lastError) related.data ?_
          · rfl
          · rfl
      | false =>
          obtain ⟨lastError, rfl⟩ := pointed.stayed outcome
          refine ⟨{ noChoice with ok := false }, lenient.seek s offset _, ?_⟩
          simp only [WriterState.respond, WriterState.seek, holding.writer_opened related.data]
          refine ⟨outcome.symm, ?_⟩
          rw [outcome]
          refine HandleOn.anywhere (holding.of_eq pointed.held rfl rfl ?_) related.data
          rfl

/-! ## The length of a file -/

/-- A file that is made longer. -/
def FileEntry.extended (entry : FileEntry) (bytes : Nat) (content : Memory) : FileEntry :=
  ⟨bytes, fun a => if a < entry.size then entry.bytes a else content a⟩

private theorem allocate_extended {file bytes : Nat} {entry : FileEntry}
    (opened : s.opened = some (file, entry)) (longer : ¬bytes ≤ entry.size) (ok : Bool)
    (content : Memory) : s.allocate ⟨ok, bytes, content⟩ bytes = (ok, { s with
      plotting := Function.update s.plotting file (some (entry.extended bytes content))
      position := bytes }) := by
  have more : ok = true ∨ bytes ≠ 0 := .inr (by omega)
  simp only [WriterState.allocate, opened, if_neg longer, if_pos more, FileEntry.extended]

private theorem allocate_failed {file bytes : Nat} {entry : FileEntry}
    (opened : s.opened = some (file, entry)) (longer : ¬bytes ≤ entry.size) (content : Memory) :
    s.allocate ⟨false, 0, content⟩ bytes = (false, { s with position := 0 }) := by
  simp [WriterState.allocate, opened, longer]

/-- The size of an open file is read, or its file pointer stays and a call has failed. -/
theorem File.size_spec {handle : Nat} {opened : OpenFile} {entry : FileEntry}
    (holding : HandleOn s osfile c handle opened entry) :
    OnWin32 possible (fun size after => ((∀ choice, possible c (.getFileSize handle) choice →
        c.Readable (.getFileSize handle) choice) → size = entry.size ∧ after = c) ∧
      ∃ lastError, after = { c with lastError := lastError }) osfile.size c := by
  unfold size
  rw [holding.held]
  refine always_perform.mpr ⟨holding.proper, fun choice able => ?_⟩
  simp only [Win32.respond, holding.opened_eq]
  split
  · exact ⟨fun _ => ⟨Nat.div_add_mod' .., rfl⟩, _, rfl⟩
  · next failed => exact ⟨fun readable => absurd (readable choice able holding.proper) failed, _, rfl⟩

/-- The file gets its length, or nothing happens. -/
structure Lengthened (osfile : File) (c : Win32) (handle bytes : Nat) (opened : OpenFile)
    (entry : FileEntry) (result : Bool × File) (after : Win32) : Prop where
  held : result.2.handle = osfile.handle
  outcome : (result.1 = false ∧ ∃ lastError, after = { c with lastError := lastError }) ∨
    ∃ content lastError, after = { c.replace handle { opened with unflushed := true }
      (entry.extended bytes content) with lastError := lastError }

/-- After the pointer is set behind the end of the file. -/
private theorem setEndOfFile_spec {handle bytes : Nat} {opened : OpenFile} {entry : FileEntry}
    (holding : HandleOn s osfile c handle opened entry) (pointer : opened.pointer = bytes) :
    OnWin32 possible (Lengthened osfile c handle bytes opened entry) (do
      if !(← sys (.setEndOfFile handle)) then osfile.fails
      else if !(← sys (.setFileValidData handle bytes)) then osfile.fails
      else pure (true, osfile)) c := by
  refine always_perform.mpr ⟨holding.proper, fun choice _ => ?_⟩
  by_cases made : choice.ok = true
  · have answered : c.respond choice (.setEndOfFile handle) = (true, c.replace handle
        { opened with unflushed := true } (entry.extended bytes choice.content)) := by
      simp only [Win32.respond, Win32.setEndOfFile, holding.opened_eq, if_pos made, pointer]
      rfl
    rw [answered]
    have further : HandleOn s osfile (c.replace handle { opened with unflushed := true }
        (entry.extended bytes choice.content)) handle _ _ :=
      holding.replace rfl rfl { opened with unflushed := true } rfl _ c.lastError
    refine always_perform.mpr ⟨further.proper, fun valid _ => ?_⟩
    by_cases ok : valid.ok = true
    · have answered : ∀ d : Win32, d.respond valid (.setFileValidData handle bytes) = (true, d) :=
        fun d => if_pos ok
      rw [answered]
      exact ⟨rfl, .inr ⟨choice.content, c.lastError, rfl⟩⟩
    · have answered : ∀ d : Win32, d.respond valid (.setFileValidData handle bytes) =
          (false, d.failing valid) := fun d => if_neg ok
      rw [answered]
      exact File.fails_spec ⟨rfl, .inr ⟨choice.content, _, rfl⟩⟩
  · have answered : c.respond choice (.setEndOfFile handle) = (false, c.failing choice) := by
      simp only [Win32.respond, Win32.setEndOfFile, holding.opened_eq, if_neg made]
    rw [answered]
    exact File.fails_spec ⟨rfl, .inl ⟨rfl, _, rfl⟩⟩

/-- A file made longer is what an allocation makes of it. -/
private theorem Lengthened.carriedOut (lenient : Lenient allowed) {handle bytes : Nat}
    {opened : OpenFile} {entry : FileEntry} {result : Bool × File} {after : Win32}
    (holding : HandleOn s osfile c handle opened entry) (data : s.data = c.view)
    (longer : ¬bytes ≤ entry.size)
    (lengthened : Lengthened osfile c handle bytes opened entry result after) :
    CarriedOut allowed mode s (.allocate bytes) result after := by
  have writer := holding.writer_opened data
  rcases lengthened.outcome with ⟨failed, lastError, rfl⟩ | ⟨content, lastError, rfl⟩
  · refine ⟨⟨⟨false, 0, fun _ => 0⟩, false, fun _ => 0, none⟩, lenient.allocate s bytes _, ?_⟩
    simp only [WriterState.respond, allocate_failed writer longer]
    refine ⟨failed.symm, HandleOn.anywhere (holding.of_eq lengthened.held rfl rfl ?_) data⟩
    rfl
  · refine ⟨⟨⟨result.1, bytes, content⟩, false, fun _ => 0, none⟩, lenient.allocate s bytes _, ?_⟩
    simp only [WriterState.respond, allocate_extended writer longer]
    refine ⟨trivial, HandleOn.anywhere (holding.replace lengthened.held ?_
      { opened with unflushed := true } rfl _ lastError) ?_⟩
    · rfl
    · rw [WriterState.data_eq_view] at data ⊢
      exact ⟨congrArg (Function.update · opened.file _) data.1, data.2⟩

/-- `allocate` is carried out on files that can be read. -/
theorem carry_allocate (lenient : Lenient allowed)
    (readable : ∀ c call choice, possible c call choice → c.Readable call choice)
    (related : Related mode s osfile c) {bytes : Nat} (bound : bytes < 18446744073709551616) :
    OnWin32 possible (CarriedOut allowed mode s (.allocate bytes)) (carry (.allocate bytes) osfile)
      c := by
  simp only [carry, File.allocate]
  cases held : osfile.handle with
  | none =>
      refine ⟨noChoice, lenient.allocate s bytes _, ?_⟩
      simp only [WriterState.respond, WriterState.allocate, related.opened_none held]
      exact ⟨trivial, related.forget⟩
  | some handle =>
      obtain ⟨opened, entry, holding, _⟩ := related.opened handle held
      have writer := holding.writer_opened related.data
      refine (File.size_spec holding).bind fun size sized read => ?_
      obtain ⟨rfl, rfl⟩ := read.1 fun choice => readable c _ choice
      split
      · next fits =>
          refine ⟨noChoice, lenient.allocate s bytes _, ?_⟩
          simp only [WriterState.respond, WriterState.allocate, writer, if_pos fits]
          exact ⟨trivial, related.forget⟩
      · next longer =>
          refine (File.setPointer_spec bound holding).bind fun result after pointed => ?_
          cases outcome : result.1 with
          | false =>
              obtain ⟨lastError, rfl⟩ := pointed.stayed outcome
              have stays : Lengthened osfile sized handle bytes opened entry result _ :=
                ⟨pointed.held, .inl ⟨outcome, lastError, rfl⟩⟩
              exact stays.carriedOut lenient holding related.data longer
          | true =>
              obtain ⟨lastError, rfl⟩ := pointed.moved outcome
              have moved := holding.move pointed.held (t := s) rfl bytes lastError
              refine (setEndOfFile_spec moved rfl).mono fun ended after lengthened => ?_
              exact lengthened.carriedOut lenient moved related.data longer

/-- Whatever the size of a file is said to be, an allocation leaves the handle on it. -/
theorem allocate_related (related : Related mode s osfile c) {bytes : Nat}
    (bound : bytes < 18446744073709551616) :
    OnWin32 possible (fun result after => ∃ t, Related .any t result.2 after)
      (carry (.allocate bytes) osfile) c := by
  simp only [carry, File.allocate]
  cases held : osfile.handle with
  | none => exact ⟨s, related.forget⟩
  | some handle =>
      obtain ⟨opened, entry, holding, _⟩ := related.opened handle held
      refine (File.size_spec holding).bind fun size after read => ?_
      obtain ⟨lastError, rfl⟩ := read.2
      have sized : HandleOn s osfile { c with lastError := lastError } handle opened entry :=
        holding.of_eq rfl rfl rfl rfl
      split
      · exact sized.exists_related
      · refine (File.setPointer_spec bound sized).bind fun result after pointed => ?_
        cases outcome : result.1 with
        | false =>
            obtain ⟨lastError, rfl⟩ := pointed.stayed outcome
            exact HandleOn.exists_related (s := s) (sized.of_eq pointed.held rfl rfl rfl)
        | true =>
            obtain ⟨lastError, rfl⟩ := pointed.moved outcome
            have moved := sized.move pointed.held (t := s) rfl bytes lastError
            refine (setEndOfFile_spec moved rfl).mono fun ended after lengthened => ?_
            rcases lengthened.outcome with ⟨_, lastError, rfl⟩ | ⟨content, lastError, rfl⟩
            · exact HandleOn.exists_related (s := s) (moved.of_eq lengthened.held rfl rfl rfl)
            · exact HandleOn.exists_related (s := s)
                (moved.replace lengthened.held rfl ⟨opened.file, bytes, true⟩ rfl _ lastError)

/-! ## Writing -/

/-- A file after a write at `position`. -/
def FileEntry.after (entry : FileEntry) (position : Nat) (buffer : Memory) (data count : Nat) :
    FileEntry :=
  ⟨if count = 0 then entry.size else max entry.size (position + count),
    entry.bytes.copy position buffer data count⟩

@[simp] theorem FileEntry.after_zero (entry : FileEntry) (position : Nat) (buffer : Memory)
    (data : Nat) : entry.after position buffer data 0 = entry := by
  have same : entry.bytes.copy position buffer data 0 = entry.bytes :=
    funext fun a => Memory.copy_outside _ _ _ (by omega)
  simp [after, same]

/-- A write in two parts. -/
theorem FileEntry.after_after (entry : FileEntry) (position : Nat) (buffer : Memory)
    (data : Nat) {first : Nat} (some : 0 < first) (second : Nat) :
    (entry.after position buffer data first).after (position + first) buffer (data + first) second =
      entry.after position buffer data (first + second) := by
  have bytes : (entry.bytes.copy position buffer data first).copy ((position + first : Nat) : Int)
      buffer ((data + first : Nat) : Int) second =
      entry.bytes.copy position buffer data (first + second) := by
    funext a
    unfold Memory.copy
    by_cases later : ((position + first : Nat) : Int) ≤ a ∧ a < (position + first : Nat) + second
    · rw [if_pos later, if_pos (by omega)]
      exact congrArg buffer (by omega)
    · rw [if_neg later]
      by_cases earlier : (position : Int) ≤ a ∧ a < position + first
      · rw [if_pos earlier, if_pos (by omega)]
      · rw [if_neg earlier, if_neg (by omega)]
  have size : (if second = 0 then (entry.after position buffer data first).size
      else max (entry.after position buffer data first).size (position + first + second)) =
      max entry.size (position + (first + second)) := by
    simp only [after, if_neg (Nat.ne_of_gt some)]
    split <;> omega
  unfold after at size ⊢
  simp only [size, bytes]
  rw [if_neg (by omega)]

/-- What a run of the loop of `write` has done: it wrote `count` bytes, all of them unless a
call failed. -/
structure LoopWrote (osfile : File) (c : Win32) (handle data bytes : Nat) (opened : OpenFile)
    (entry : FileEntry) (count : Nat) (result : Bool × File) (after : Win32) : Prop where
  held : result.2.handle = osfile.handle
  most : count ≤ bytes
  all : result.1 = true → count = bytes
  written : ∃ unflushed lastError, after = { c.replace handle
    ⟨opened.file, opened.pointer + count, unflushed⟩
    (entry.after opened.pointer c.writeBuffer data count) with lastError := lastError }

/-- The last contents count. -/
theorem Win32.replace_replace {handle : Nat} {opened opened' : OpenFile} (entry entry' : FileEntry)
    (same : opened'.file = opened.file) :
    (c.replace handle opened entry).replace handle opened' entry' =
      c.replace handle opened' entry' := by
  simp only [replace, same, Function.update_idem]

/-- Putting the same contents in place changes nothing. -/
theorem HandleOn.replace_self {handle : Nat} {opened : OpenFile} {entry : FileEntry}
    (holding : HandleOn s osfile c handle opened entry) : c.replace handle opened entry = c := by
  unfold Win32.replace
  rw [← holding.there, ← holding.handles_self, Function.update_eq_self, Function.update_eq_self]

/-- The loop of `write` writes the first part of the buffer, all of it unless a call failed. -/
theorem File.writeLoop_spec (rounds : Nat) : ∀ {data bytes handle : Nat} {opened : OpenFile}
    {entry : FileEntry} {c : Win32}, HandleOn s osfile c handle opened entry → bytes < 4294967296 →
    bytes < rounds → OnWin32 possible (fun result after => ∃ count,
        LoopWrote osfile c handle data bytes opened entry count result after)
      (osfile.writeLoop handle rounds data bytes) c := by
  induction rounds with
  | zero => exact fun _ _ enough => absurd enough (Nat.not_lt_zero _)
  | succ rounds ih =>
      intro data bytes handle opened entry c holding short enough
      refine always_perform.mpr ⟨holding.proper, fun choice _ => ?_⟩
      rw [Nat.mod_eq_of_lt short]
      by_cases ok : choice.ok = true
      · have answered : c.respond choice (.writeFile handle data bytes) =
            ((true, min bytes (max 1 choice.amount)), c.replace handle
              ⟨opened.file, opened.pointer + min bytes (max 1 choice.amount), true⟩
              (entry.after opened.pointer c.writeBuffer data (min bytes (max 1 choice.amount)))) := by
          simp only [Win32.respond, Win32.writeFile, holding.opened_eq, if_pos ok]
          rfl
        rw [answered]
        generalize wrote : min bytes (max 1 choice.amount) = count
        have further : HandleOn s osfile (c.replace handle
            ⟨opened.file, opened.pointer + count, true⟩
            (entry.after opened.pointer c.writeBuffer data count)) handle _ _ :=
          holding.replace rfl rfl ⟨opened.file, opened.pointer + count, true⟩ rfl _ c.lastError
        by_cases more : 0 < bytes - count
        · have some : 0 < count := by omega
          simp only [more, and_self, if_true]
          refine (ih further (by omega) (by omega)).mono fun result after loop => ?_
          obtain ⟨rest, loop⟩ := loop
          refine ⟨count + rest, loop.held, ?_, ?_, ?_⟩
          · have := loop.most
            omega
          · intro all
            have := loop.all all
            omega
          · obtain ⟨unflushed, lastError, rfl⟩ := loop.written
            refine ⟨unflushed, lastError, ?_⟩
            have joined := entry.after_after opened.pointer c.writeBuffer data some rest
            simp only [Win32.replace_replace, Nat.add_assoc] at joined ⊢
            rw [← joined]
            rfl
        · simp only [more, and_false, if_false, or_false, Bool.not_true, Bool.false_eq_true]
          refine ⟨count, rfl, by omega, fun _ => by omega, true, c.lastError, rfl⟩
      · have answered : c.respond choice (.writeFile handle data bytes) =
            ((false, 0), c.failing choice) := by
          simp only [Win32.respond, Win32.writeFile, holding.opened_eq, if_neg ok]
        rw [answered]
        simp only [Bool.false_eq_true, false_and, if_false, Bool.not_false, true_or, if_true]
        refine File.fails_spec ⟨0, rfl, Nat.zero_le _, nofun, opened.unflushed,
          max 1 choice.error, ?_⟩
        simp only [Nat.add_zero, FileEntry.after_zero, holding.replace_self]
        rfl

/-- `write` is carried out after a `seek`. -/
theorem carry_write (lenient : Lenient allowed) (related : Related .placed s osfile c) {bytes : Nat}
    (short : bytes < 4294967296) :
    OnWin32 possible (CarriedOut allowed .placed s (.write bytes)) (carry (.write bytes) osfile)
      c := by
  simp only [carry, File.write]
  cases held : osfile.handle with
  | none =>
      refine ⟨noChoice, lenient.write s bytes _, ?_⟩
      simp only [WriterState.respond, WriterState.write, related.opened_none held]
      exact ⟨trivial, related⟩
  | some handle =>
      obtain ⟨opened, entry, holding, position⟩ := related.opened handle held
      have writer := holding.writer_opened related.data
      refine (File.writeLoop_spec (bytes + 1) holding short (Nat.lt_succ_self _)).mono
        fun result after loop => ?_
      obtain ⟨count, loop⟩ := loop
      obtain ⟨unflushed, lastError, rfl⟩ := loop.written
      refine ⟨⟨⟨result.1, count, fun _ => 0⟩, false, fun _ => 0, none⟩,
        lenient.write s bytes _, ?_⟩
      have amount : (if result.1 = true then bytes else min count bytes) = count := by
        split
        · next ok => exact (loop.all ok).symm
        · exact Nat.min_eq_left loop.most
      simp only [WriterState.respond, WriterState.write, writer, amount]
      refine ⟨trivial, HandleOn.placed (holding.replace loop.held ?_
        ⟨opened.file, opened.pointer + count, unflushed⟩ rfl _ lastError) ?_ ?_⟩
      · rfl
      · have data := WriterState.data_eq_view.mp related.data
        refine WriterState.data_eq_view.mpr ⟨?_, data.2⟩
        show Function.update s.plotting _ _ = Function.update c.plotting _ _
        rw [data.1, position rfl, related.writeBuffer]
        rfl
      · show s.position + count = opened.pointer + count
        rw [position rfl]

end

/-- Every request of a writer that keeps to the discipline is carried out by `util::file` as
under an allowed choice, on files that can be read. -/
theorem carry_refines (lenient : Lenient allowed) :
    Refines fileDiscipline carry WriterState.respond allowed Win32.respond
      (Win32.Dependable allowed) Win32.Proper Related := by
  intro mode s osfile c request related permitted
  have documented : ∀ (c : Win32) call choice, c.Dependable allowed call choice →
      c.Documented allowed call choice := fun _ _ _ dependable => dependable.1
  have readable : ∀ (c : Win32) call choice, c.Dependable allowed call choice →
      c.Readable call choice := fun _ _ _ dependable => dependable.2
  cases request with
  | stopped | pop | gather | submit | report =>
      exact carry_thread lenient documented related trivial
  | isOpen => exact ⟨noChoice, lenient.isOpen s _, related.handle_isSome, related⟩
  | fileExists file => exact carry_fileExists lenient readable related file
  | openFile file create => exact carry_openFile lenient related file create
  | allocate bytes => exact carry_allocate lenient readable related permitted
  | seek offset => exact carry_seek lenient related permitted
  | write bytes =>
      obtain ⟨rfl, short⟩ := permitted
      exact carry_write lenient related short
  | closeFile => exact carry_closeFile lenient related
  | rename file => exact carry_rename lenient documented related permitted file

/-- Whatever the calls do, `util::file` and the system agree on the handle. -/
theorem carry_maintains : Maintains fileDiscipline carry Win32.respond
    (Win32.Documented fun _ _ _ => True) Win32.Proper
    (fun mode osfile c => ∃ s, Related mode s osfile c) := by
  have lenient : Lenient fun _ _ _ => True :=
    ⟨id, fun _ _ => trivial, fun _ _ _ => trivial, fun _ _ _ _ => trivial, fun _ _ _ => trivial,
      fun _ _ _ => trivial, fun _ _ _ => trivial, fun _ _ => trivial⟩
  have documented : ∀ (c : Win32) call choice, c.Documented (fun _ _ _ => True) call choice →
      c.Documented (fun _ _ _ => True) call choice := fun _ _ _ => id
  rintro mode osfile c request ⟨s, related⟩ permitted
  have carried {program : Win32Program (request.Reply × File)}
      (carries : OnWin32 (Win32.Documented fun _ _ _ => True)
        (CarriedOut (fun _ _ _ => True) mode s request) program c) :
      OnWin32 (Win32.Documented fun _ _ _ => True) (fun result after =>
        ∃ s, Related (fileDiscipline.after mode request result.1) s result.2 after) program c :=
    carries.mono fun result after carriedOut => by
      obtain ⟨choice, _, _, further⟩ := carriedOut
      exact ⟨_, further⟩
  cases request with
  | stopped | pop | gather | submit | report =>
      exact carried (carry_thread lenient documented related trivial)
  | isOpen => exact ⟨s, related⟩
  | fileExists file =>
      exact (fileExists_related related file).mono fun _ _ further => ⟨s, further⟩
  | openFile file create => exact carried (carry_openFile lenient related file create)
  | allocate bytes => exact allocate_related related permitted
  | seek offset => exact carried (carry_seek lenient related permitted)
  | write bytes =>
      obtain ⟨rfl, short⟩ := permitted
      exact carried (carry_write lenient related short)
  | closeFile => exact carried (carry_closeFile lenient related)
  | rename file => exact carried (carry_rename lenient documented related permitted file)

end HyperPlotter.Pipeline
