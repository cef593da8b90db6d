import HyperPlotter.Foundation.Refinement
import HyperPlotter.Pipeline.Writer

/-!
# Files on Win32

`util::file` as programs of Win32 calls: the handle is a member of the object, the file
pointer belongs to the handle, and the system reports an error by a code of the thread.
`respond` is what the calls do; where the documentation leaves it open, a choice decides.
-/

namespace HyperPlotter.Pipeline

open Foundation Poc

/-! ## The calls -/

/-- The calls of a writer thread: what it asks other threads, and the Win32 functions of
`util::file`. Paths are those of the tasks, `.plotting` files but for `MoveFileExA`. -/
inductive Win32Call where
  | thread (request : WriterRequest)
  | getFileAttributes (file : Nat)
  | createFile (file : Nat) (createAlways : Bool)
  | getFileSize (handle : Nat)
  | setFilePointer (handle : Nat) (low : Nat) (high : Int)
  | setEndOfFile (handle : Nat)
  | setFileValidData (handle : Nat) (length : Nat)
  | writeFile (handle : Nat) (data : Nat) (bytes : Nat)
  | flushFileBuffers (handle : Nat)
  | closeHandle (handle : Nat)
  | moveFileEx (file : Nat)
  | getLastError

/-- The type of the answer. No handle stands for `INVALID_HANDLE_VALUE`. -/
@[reducible] def Win32Call.Reply : Win32Call → Type
  | .thread request => request.Reply
  | .getFileAttributes _ => Word
  | .createFile .. => Option Nat
  | .getFileSize _ => Nat × Nat
  | .setFilePointer .. => Nat × Int
  | .writeFile .. => Bool × Nat
  | .getLastError => Nat
  | _ => Bool

/-- A program of Win32 calls. -/
abbrev Win32Program := Interaction Win32Call Win32Call.Reply

/-- One call. -/
abbrev sys (call : Win32Call) : Win32Program call.Reply := Interaction.perform call

/-- `INVALID_FILE_ATTRIBUTES`. -/
def invalidFileAttributes : Word := 0xFFFFFFFF

/-- `FILE_ATTRIBUTE_DIRECTORY`. -/
def fileAttributeDirectory : Word := 0x10

/-- `INVALID_SET_FILE_POINTER`. -/
def invalidSetFilePointer : Nat := 4294967295

/-- `INVALID_FILE_SIZE`. -/
def invalidFileSize : Nat := 4294967295

/-- The `QuadPart` of a `LARGE_INTEGER`. -/
def quadPart (low : Nat) (high : Int) : Int := high * 4294967296 + low

/-! ## `util::file` -/

/-- The members of `util::file`. -/
structure File where
  handle : Option Nat
  error : Nat

namespace File

/-- `file::exists` of a `.plotting` file. -/
def fileExists (file : Nat) : Win32Program Bool := do
  let attr : Word ← sys (.getFileAttributes file)
  pure (attr != invalidFileAttributes && attr &&& fileAttributeDirectory == 0)

/-- `file::rename` of a `.plotting` file. -/
def rename (file : Nat) : Win32Program Bool := sys (.moveFileEx file)

variable (self : File)

/-- The end of a failing method: `error_ = ::GetLastError(); return false;`. -/
def fails : Win32Program (Bool × File) := do
  let error : Nat ← sys .getLastError
  pure (false, { self with error := error })

/-- `file::open`. -/
def openFile (file : Nat) (create : Bool) : Win32Program (Bool × File) :=
  if self.handle.isSome then pure (true, self)
  else do
    let opened : Option Nat ← sys (.createFile file create)
    match opened with
    | none => self.fails
    | some handle => pure (true, { self with handle := some handle })

/-- `file::flush`. -/
def flush : Win32Program (Bool × File) :=
  match self.handle with
  | none => pure (false, self)
  | some handle => do
    if ← sys (.flushFileBuffers handle) then pure (true, self)
    else self.fails

/-- `file::close`. -/
def close : Win32Program File :=
  match self.handle with
  | none => pure self
  | some handle => do
    let flushed : Bool × File ← self.flush
    let _ ← sys (.closeHandle handle)
    pure { flushed.2 with handle := none }

/-- `SetFilePointer` from the start of the file, with the checks of `seek` and `allocate`. -/
def setPointer (handle offset : Nat) : Win32Program (Bool × File) := do
  let pointer : Nat × Int ←
    sys (.setFilePointer handle (offset % 4294967296) (toInt32 (offset / 4294967296)))
  let error : Nat ← sys .getLastError
  let failed := pointer.1 == invalidSetFilePointer && error != 0
  pure (!failed && toUInt64 (quadPart pointer.1 pointer.2) == offset, { self with error := error })

/-- `file::seek`. -/
def seek (offset : Nat) : Win32Program (Bool × File) :=
  match self.handle with
  | none => pure (false, self)
  | some handle => self.setPointer handle offset

/-- `file::size`. -/
def size : Win32Program Nat :=
  match self.handle with
  | none => pure 0
  | some handle => do
    let parts : Nat × Nat ← sys (.getFileSize handle)
    pure (parts.2 * 4294967296 + parts.1)

/-- `file::allocate` with `sparse`. -/
def allocate (bytes : Nat) : Win32Program (Bool × File) :=
  match self.handle with
  | none => pure (false, self)
  | some handle => do
    let fileSize ← self.size
    if bytes ≤ fileSize then pure (true, self)
    else do
      let pointed : Bool × File ← self.setPointer handle bytes
      if !pointed.1 then pure pointed
      else if !(← sys (.setEndOfFile handle)) then pointed.2.fails
      else if !(← sys (.setFileValidData handle bytes)) then pointed.2.fails
      else pure (true, pointed.2)

/-- The loop of `file::write`: a call that succeeds writes something, so the rounds are
never used up. -/
def writeLoop (handle : Nat) : Nat → Nat → Nat → Win32Program (Bool × File)
  | 0, _, _ => pure (false, self)
  | rounds + 1, data, bytesToWrite => do
    let wrote : Bool × Nat ← sys (.writeFile handle data (bytesToWrite % 4294967296))
    let rest := bytesToWrite - wrote.2
    if wrote.1 ∧ 0 < rest then writeLoop handle rounds (data + wrote.2) rest
    else if !wrote.1 ∨ 0 < rest then self.fails
    else pure (true, self)

/-- `file::write` from the write buffer. -/
def write (bytes : Nat) : Win32Program (Bool × File) :=
  match self.handle with
  | none => pure (false, self)
  | some handle => self.writeLoop handle (bytes + 1) 0 bytes

end File

/-- How a request of the writer thread is carried out with `osfile_`. -/
def carry : (request : WriterRequest) → File → Win32Program (request.Reply × File)
  | .isOpen, osfile => pure (osfile.handle.isSome, osfile)
  | .fileExists file, osfile => do
    let found : Bool ← File.fileExists file
    pure (found, osfile)
  | .openFile file create, osfile => osfile.openFile file create
  | .allocate bytes, osfile => osfile.allocate bytes
  | .seek offset, osfile => osfile.seek offset
  | .write bytes, osfile => osfile.write bytes
  | .closeFile, osfile => do
    let closed : File ← osfile.close
    pure ((), closed)
  | .rename file, osfile => do
    let renamed : Bool ← File.rename file
    pure (renamed, osfile)
  | .stopped poll, osfile => do
    let stop : Bool ← sys (.thread (.stopped poll))
    pure (stop, osfile)
  | .pop, osfile => do
    let task : Option HasherTask ← sys (.thread .pop)
    pure (task, osfile)
  | .gather scoop nstart nsize, osfile => do
    sys (.thread (.gather scoop nstart nsize))
    pure ((), osfile)
  | .submit file nonces initNonces, osfile => do
    let complete : Bool ← sys (.thread (.submit file nonces initNonces))
    pure (complete, osfile)
  | .report, osfile => do
    sys (.thread .report)
    pure ((), osfile)

/-! ## The system -/

/-- What a handle stands for: its file, the file pointer, and whether anything was written
through it since it was last flushed. -/
structure OpenFile where
  file : Nat
  pointer : Nat
  unflushed : Bool

/-- The files of one writer, the handles of its thread, and the thread's own data as in
`WriterState`. -/
structure Win32 where
  plotting : Nat → Option FileEntry
  final : Nat → Option FileEntry
  handles : Nat → Option OpenFile
  lastError : Nat
  writeBuffer : Memory
  submitted : Nat → Int
  current : Option (HasherTask × Memory)
  finished : List (HasherTask × Memory)

/-- What the system decides: a new handle, an error code, attributes, and what is left in
an output argument of a failing call. -/
structure Win32Choice extends Choice where
  handle : Nat
  error : Nat
  attributes : Word
  high : Int

/-- The `DWORD` that `size` reads when `GetFileSize` fails. -/
def Win32Choice.sizeHigh (choice : Win32Choice) : Nat := (choice.high % 4294967296).toNat

namespace Win32

/-- The data of the thread, with no file. -/
def view (c : Win32) : WriterState where
  plotting := c.plotting
  final := c.final
  handle := none
  position := 0
  writeBuffer := c.writeBuffer
  submitted := c.submitted
  current := c.current
  finished := c.finished
  history := []

/-- A call that fails: the thread's error code is set. -/
def failing (choice : Win32Choice) (c : Win32) : Win32 :=
  { c with lastError := max 1 choice.error }

/-- The handle with its file, when both are there. -/
def opened (c : Win32) (handle : Nat) : Option (OpenFile × FileEntry) :=
  (c.handles handle).bind fun opened => (c.plotting opened.file).map fun entry => (opened, entry)

/-- Other contents of the file behind a handle. -/
def replace (c : Win32) (handle : Nat) (opened : OpenFile) (entry : FileEntry) : Win32 :=
  { c with
    plotting := Function.update c.plotting opened.file (some entry)
    handles := Function.update c.handles handle (some opened) }

/-- `CreateFileA`: `CREATE_ALWAYS` truncates, `OPEN_EXISTING` does not create. -/
def createFile (choice : Win32Choice) (c : Win32) (file : Nat) (createAlways : Bool) :
    Option Nat × Win32 :=
  if choice.ok && (c.handles choice.handle).isNone && (createAlways || (c.plotting file).isSome) then
    (some choice.handle, { c with
      plotting := if createAlways then Function.update c.plotting file (some ⟨0, choice.content⟩)
        else c.plotting
      handles := Function.update c.handles choice.handle (some ⟨file, 0, false⟩) })
  else (none, c.failing choice)

/-- `SetFilePointer` with `FILE_BEGIN`. A success that returns `INVALID_SET_FILE_POINTER`
sets the error code to `NO_ERROR`. -/
def setFilePointer (choice : Win32Choice) (c : Win32) (handle low : Nat) (high : Int) :
    (Nat × Int) × Win32 :=
  match c.handles handle with
  | none => ((invalidSetFilePointer, choice.high), c.failing choice)
  | some opened =>
    if choice.ok ∧ 0 ≤ quadPart low high then
      ((low, high), { c with
        handles := Function.update c.handles handle
          (some { opened with pointer := (quadPart low high).toNat })
        lastError := if low = invalidSetFilePointer then 0 else c.lastError })
    else ((invalidSetFilePointer, choice.high), c.failing choice)

/-- `SetEndOfFile`: what a longer file holds behind its old end is not defined. -/
def setEndOfFile (choice : Win32Choice) (c : Win32) (handle : Nat) : Bool × Win32 :=
  match c.opened handle with
  | none => (false, c.failing choice)
  | some (opened, entry) =>
    if choice.ok then
      (true, c.replace handle { opened with unflushed := true } ⟨opened.pointer, fun a =>
        if a < entry.size then entry.bytes a else choice.content a⟩)
    else (false, c.failing choice)

/-- `WriteFile`: a success writes some of the bytes, unless there are none. -/
def writeFile (choice : Win32Choice) (c : Win32) (handle data bytes : Nat) : (Bool × Nat) × Win32 :=
  match c.opened handle with
  | none => ((false, 0), c.failing choice)
  | some (opened, entry) =>
    if choice.ok then
      let count := min bytes (max 1 choice.amount)
      ((true, count), c.replace handle
        { opened with pointer := opened.pointer + count, unflushed := true }
        ⟨if count = 0 then entry.size else max entry.size (opened.pointer + count),
          entry.bytes.copy opened.pointer c.writeBuffer data count⟩)
    else ((false, 0), c.failing choice)

/-- `MoveFileExA` of a `.plotting` file to its final name, replacing. -/
def moveFileEx (choice : Win32Choice) (c : Win32) (file : Nat) : Bool × Win32 :=
  match c.plotting file with
  | some entry =>
    if choice.ok then
      (true, { c with
        plotting := Function.update c.plotting file none
        final := Function.update c.final file (some entry) })
    else (false, c.failing choice)
  | none => (false, c.failing choice)

/-- The answer to a call. -/
def respond (choice : Win32Choice) (c : Win32) : (call : Win32Call) → call.Reply × Win32
  | .thread request =>
    let answer := c.view.respond choice.toChoice request
    (answer.1, { c with
      writeBuffer := answer.2.writeBuffer
      submitted := answer.2.submitted
      current := answer.2.current
      finished := answer.2.finished })
  | .getFileAttributes file =>
    if choice.ok then
      (if (c.plotting file).isSome then choice.attributes &&& ~~~fileAttributeDirectory
        else choice.attributes ||| fileAttributeDirectory, c)
    else (invalidFileAttributes, c.failing choice)
  | .createFile file createAlways => c.createFile choice file createAlways
  | .getFileSize handle =>
    match c.opened handle with
    | none => ((invalidFileSize, choice.sizeHigh), c.failing choice)
    | some (_, entry) =>
      if choice.ok then ((entry.size % 4294967296, entry.size / 4294967296), c)
      else ((invalidFileSize, choice.sizeHigh), c.failing choice)
  | .setFilePointer handle low high => c.setFilePointer choice handle low high
  | .setEndOfFile handle => c.setEndOfFile choice handle
  | .setFileValidData _ _ => if choice.ok then (true, c) else (false, c.failing choice)
  | .writeFile handle data bytes => c.writeFile choice handle data bytes
  | .flushFileBuffers handle =>
    (choice.ok, { c with
      handles := Function.update c.handles handle
        ((c.handles handle).map fun opened => { opened with unflushed := false })
      lastError := if choice.ok then c.lastError else max 1 choice.error })
  | .closeHandle handle => (true, { c with handles := Function.update c.handles handle none })
  | .moveFileEx file => c.moveFileEx choice file
  | .getLastError => (c.lastError, c)

/-- A proper use of handles: a call is given an open handle, a file is opened when no other
is, a handle is flushed before it is closed, and no file is renamed with a handle open. -/
def Proper (c : Win32) : Win32Call → Prop
  | .createFile .. => ∀ handle, c.handles handle = none
  | .moveFileEx _ => ∀ handle, c.handles handle = none
  | .closeHandle handle => ∃ opened, c.handles handle = some opened ∧ opened.unflushed = false
  | .getFileSize handle => (c.opened handle).isSome
  | .setFilePointer handle _ _ => (c.opened handle).isSome
  | .setEndOfFile handle => (c.opened handle).isSome
  | .setFileValidData handle _ => (c.opened handle).isSome
  | .writeFile handle _ _ => (c.opened handle).isSome
  | .flushFileBuffers handle => (c.opened handle).isSome
  | _ => True

/-- The choices that are left when the writer's environment may only make those allowed. -/
def Documented (allowed : WriterState → WriterRequest → Choice → Prop) (c : Win32) :
    Win32Call → Win32Choice → Prop
  | .thread request, choice => allowed c.view request choice.toChoice
  | .moveFileEx file, choice => allowed c.view (.rename file) choice.toChoice
  | _, _ => True

/-- The attributes of a file that is there and the size of an open one can be read. -/
def Readable (c : Win32) : Win32Call → Win32Choice → Prop
  | .getFileAttributes file, choice => (c.plotting file).isSome → choice.ok = true
  | .getFileSize handle, choice => (c.opened handle).isSome → choice.ok = true
  | _, _ => True

/-- The choices among them under which files can be read. -/
def Dependable (allowed : WriterState → WriterRequest → Choice → Prop) (c : Win32)
    (call : Win32Call) (choice : Win32Choice) : Prop :=
  c.Documented allowed call choice ∧ c.Readable call choice

end Win32

end HyperPlotter.Pipeline
