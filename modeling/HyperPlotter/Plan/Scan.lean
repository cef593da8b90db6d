import HyperPlotter.Pipeline.PlotName
import HyperPlotter.Poc.Base

/-!
# The scan of a directory

What `run_plotter` reads off the directory of a driver: the size of the first
file with an extension, and the end of the last plot file of the plot id in the
nonce range of the start nonce.
-/

namespace HyperPlotter.Plan

open Foundation Poc Pipeline

/-- An entry of a directory. -/
structure DirEntry where
  name : Text
  directory : Bool
  size : Nat
deriving DecidableEq

/-- `has_extension`: there is a dot in the name. -/
def DirEntry.hasExtension (entry : DirEntry) : Bool := '.' ∈ entry.name

/-- A file with an extension, which the scan takes for an unfinished one. -/
def DirEntry.leftover (entry : DirEntry) : Bool := !entry.directory && entry.hasExtension

/-- What the system says of a driver: whether it exists, the bytes
`sys_free_disk_bytes` reports, and the directory. -/
structure Drive where
  present : Bool
  freeBytes : Nat
  entries : List DirEntry

/-- The bytes the scan adds to the free ones: those of the first leftover file. -/
def Drive.credit (drive : Drive) : Nat :=
  ((drive.entries.find? DirEntry.leftover).map DirEntry.size).getD 0

/-- The arguments of `run_plotter` the planner uses. `weight` is the integer
`uint64_t(stod(args_["weight"]) * 1024)`. -/
structure PlanRequest where
  plotId : Nat
  startNonce : Nat
  totalNonces : Nat
  weight : Nat
  drivers : List Text
  plotId_lt : plotId < 18446744073709551616 := by decide
  startNonce_lt : startNonce < 18446744073709551616 := by decide
  totalNonces_lt : totalNonces < 18446744073709551616 := by decide

/-- The variables of a scan. -/
structure Scan where
  free : Int
  plottingFiles : Nat
  lastSn : Nat
deriving DecidableEq

namespace PlanRequest

variable (request : PlanRequest)

/-- The first nonce after the file of the given name, when the name counts. None
where `stoull` or `stoll` throws. -/
def plotEnd (name : Text) : Option (Option Nat) :=
  match split name '_' with
  | [first, second, third] => do
    if (← stoull first) ≠ request.plotId then pure none
    else
      let sn ← stoull second
      if sn / 4294967296 = request.startNonce / 4294967296 then
        let count ← stoll third
        pure (some (toUInt64 (sn + count)))
      else pure none
  | _ => pure none

/-- One round of the loop over the directory. -/
def scanEntry (scan : Scan) (entry : DirEntry) : Option Scan :=
  if entry.directory then some scan
  else if entry.hasExtension then
    some { scan with
      free := if scan.plottingFiles = 0 then toInt64 (scan.free + entry.size) else scan.free
      plottingFiles := scan.plottingFiles + 1 }
  else
    (request.plotEnd entry.name).map fun
      | none => scan
      | some last => { scan with lastSn := max scan.lastSn last }

/-- The scan of a driver at its first visit. -/
def scan (drive : Drive) : Option Scan :=
  drive.entries.foldlM request.scanEntry ⟨toInt64 drive.freeBytes, 0, 0⟩

/-! ## What a scan finds -/

/-- No exception comes from the entry. -/
def Readable (entry : DirEntry) : Prop :=
  entry.directory ∨ entry.hasExtension ∨ (request.plotEnd entry.name).isSome

instance (entry : DirEntry) : Decidable (request.Readable entry) :=
  inferInstanceAs (Decidable (_ ∨ _ ∨ _))

/-- What `last_sn` is raised to by the entry. -/
def countedEnd (entry : DirEntry) : Nat :=
  if entry.directory ∨ entry.hasExtension then 0
  else ((request.plotEnd entry.name).getD none).getD 0

/-- `last_sn` after some entries. -/
def lastSn (entries : List DirEntry) : Nat :=
  entries.foldl (fun last entry => max last (request.countedEnd entry)) 0

variable {request}

/-- An entry that can be read only changes what it is meant to. -/
theorem scanEntry_eq {entry : DirEntry} (readable : request.Readable entry) (scan : Scan) :
    request.scanEntry scan entry = some
      { free := if entry.leftover ∧ scan.plottingFiles = 0 then toInt64 (scan.free + entry.size)
          else scan.free
        plottingFiles := scan.plottingFiles + entry.leftover.toNat
        lastSn := max scan.lastSn (request.countedEnd entry) } := by
  unfold scanEntry DirEntry.leftover countedEnd
  by_cases directory : entry.directory
  · simp [directory]
  · by_cases extension : entry.hasExtension
    · simp [directory, extension]
    · obtain ⟨last, read⟩ := Option.isSome_iff_exists.mp
        (readable.resolve_left directory |>.resolve_left extension)
      cases last <;> simp [directory, extension, read]

/-- An entry that cannot be read ends the scan. -/
theorem scanEntry_none {entry : DirEntry} (unreadable : ¬request.Readable entry) (scan : Scan) :
    request.scanEntry scan entry = none := by
  unfold Readable at unreadable
  rw [not_or, not_or, Option.not_isSome_iff_eq_none] at unreadable
  unfold scanEntry
  rw [if_neg unreadable.1, if_neg unreadable.2.1, unreadable.2.2]
  rfl

/-- A scan of readable entries goes through. -/
private theorem foldlM_scanEntry {entries : List DirEntry}
    (readable : ∀ entry ∈ entries, request.Readable entry) (scan : Scan) :
    entries.foldlM request.scanEntry scan = some
      { free := if scan.plottingFiles = 0 then
            match entries.find? DirEntry.leftover with
            | some entry => toInt64 (scan.free + entry.size)
            | none => scan.free
          else scan.free
        plottingFiles := scan.plottingFiles + entries.countP DirEntry.leftover
        lastSn := entries.foldl (fun last entry => max last (request.countedEnd entry))
          scan.lastSn } := by
  induction entries generalizing scan with
  | nil => simp
  | cons entry rest ih =>
      obtain ⟨here, later⟩ := List.forall_mem_cons.mp readable
      rw [List.foldlM_cons, scanEntry_eq here, Option.bind_eq_bind, Option.bind_some, ih later]
      cases left : entry.leftover with
      | true => by_cases first : scan.plottingFiles = 0 <;> simp [left, first] <;> omega
      | false => simp [left]

/-- What the scan of a readable directory finds. -/
theorem scan_of_readable {drive : Drive}
    (readable : ∀ entry ∈ drive.entries, request.Readable entry) :
    request.scan drive = some
      { free := toInt64 (drive.freeBytes + drive.credit)
        plottingFiles := drive.entries.countP DirEntry.leftover
        lastSn := request.lastSn drive.entries } := by
  unfold scan
  rw [foldlM_scanEntry readable]
  unfold Drive.credit lastSn
  cases drive.entries.find? DirEntry.leftover with
  | none => simp
  | some entry => simp [toInt64_add_toInt64]

/-- A scan throws exactly at an entry that cannot be read. -/
theorem scan_isSome {drive : Drive} :
    (request.scan drive).isSome ↔ ∀ entry ∈ drive.entries, request.Readable entry := by
  constructor
  · intro goes entry member
    by_contra unreadable
    obtain ⟨before, after, split⟩ := List.append_of_mem member
    obtain ⟨found, scanned⟩ := Option.isSome_iff_exists.mp goes
    unfold scan at scanned
    rw [split, List.foldlM_append] at scanned
    obtain ⟨middle, _, rest⟩ := Option.bind_eq_some_iff.mp scanned
    rw [List.foldlM_cons, scanEntry_none unreadable] at rest
    cases rest
  · intro readable
    rw [scan_of_readable readable]
    rfl

/-- `last_sn` is the largest of the ends. -/
theorem lastSn_le {entries : List DirEntry} {n : Nat} :
    request.lastSn entries ≤ n ↔ ∀ entry ∈ entries, request.countedEnd entry ≤ n := by
  have general : ∀ (entries : List DirEntry) (first : Nat),
      entries.foldl (fun last entry => max last (request.countedEnd entry)) first ≤ n ↔
        first ≤ n ∧ ∀ entry ∈ entries, request.countedEnd entry ≤ n := by
    intro entries
    induction entries with
    | nil => simp
    | cons entry rest ih =>
        intro first
        rw [List.foldl_cons, ih, Nat.max_le, List.forall_mem_cons, and_assoc]
  exact (general entries 0).trans (and_iff_right (Nat.zero_le n))

/-- No end is beyond `last_sn`. -/
theorem countedEnd_le {entries : List DirEntry} {entry : DirEntry} (member : entry ∈ entries) :
    request.countedEnd entry ≤ request.lastSn entries :=
  lastSn_le.mp (Nat.le_refl _) entry member

variable (request) in
/-- `last_sn` is nothing or the end of some file. -/
theorem lastSn_cases (entries : List DirEntry) : request.lastSn entries = 0 ∨
    ∃ entry ∈ entries, request.lastSn entries = request.countedEnd entry := by
  by_contra neither
  rw [not_or, not_exists] at neither
  obtain ⟨positive, none⟩ := neither
  have below : request.lastSn entries ≤ request.lastSn entries - 1 := by
    rw [lastSn_le]
    intro entry member
    have upper : request.countedEnd entry ≤ request.lastSn entries := countedEnd_le member
    have differ : request.lastSn entries ≠ request.countedEnd entry :=
      fun same => none entry ⟨member, same⟩
    omega
  omega

/-! ## Finished files -/

/-- A finished plot file of the request's plot id. -/
structure PlotFile (request : PlanRequest) (entry : DirEntry) (sn n : Nat) : Prop where
  file : entry.directory = false
  name : entry.name = plotName request.plotId sn n

variable {entry : DirEntry} {sn n : Nat}

/-- What the name of a finished file in the range of the start nonce contributes. -/
theorem plotEnd_plotName (sn_lt : sn < 18446744073709551616)
    (same : sn / 4294967296 = request.startNonce / 4294967296) :
    request.plotEnd (plotName request.plotId sn n) =
      (stoll (decimal n)).map fun count => some (toUInt64 (sn + count)) := by
  unfold plotEnd
  rw [split_plotName]
  simp only [stoull_decimal request.plotId_lt, stoull_decimal sn_lt, Option.bind_eq_bind,
    Option.bind_some, ne_eq, not_true_eq_false, if_false, same, if_true]
  cases stoll (decimal n) <;> rfl

/-- A file of another plot or range contributes nothing. -/
theorem plotEnd_plotName_none {pid : Nat} (pid_lt : pid < 18446744073709551616)
    (sn_lt : sn < 18446744073709551616)
    (passed : ¬(pid = request.plotId ∧ sn / 4294967296 = request.startNonce / 4294967296)) :
    request.plotEnd (plotName pid sn n) = some none := by
  unfold plotEnd
  rw [split_plotName]
  simp only [stoull_decimal pid_lt, stoull_decimal sn_lt, Option.bind_eq_bind, Option.bind_some]
  by_cases own : pid = request.plotId
  · rw [if_neg (not_not.mpr own), if_neg fun range => passed ⟨own, range⟩]
    rfl
  · exact if_pos own

/-- A plot file has no extension. -/
theorem PlotFile.no_extension (plot : request.PlotFile entry sn n) : ¬entry.hasExtension := by
  unfold DirEntry.hasExtension
  rw [plot.name]
  simpa using dot_notMem_plotName request.plotId sn n

/-- `last_sn` is raised to the end of a finished file in the range of the start
nonce. -/
theorem PlotFile.countedEnd (plot : request.PlotFile entry sn n)
    (readable : request.Readable entry)
    (same : sn / 4294967296 = request.startNonce / 4294967296)
    (bound : sn + n < 18446744073709551616) : request.countedEnd entry = sn + n := by
  have read := plotEnd_plotName (n := n) (by omega) same
  have directory : ¬entry.directory := by simp [plot.file]
  have goes := readable.resolve_left directory |>.resolve_left plot.no_extension
  rw [plot.name, read, Option.isSome_map] at goes
  have small : n < 9223372036854775808 := by
    by_contra large
    rw [stoll_decimal_large (by omega)] at goes
    cases goes
  unfold PlanRequest.countedEnd
  rw [if_neg (by simp [plot.file, plot.no_extension]), plot.name, read, stoll_decimal small]
  show toUInt64 ((sn : Int) + n) = sn + n
  rw [← Int.natCast_add, toUInt64_natCast bound]

end PlanRequest

end HyperPlotter.Plan
