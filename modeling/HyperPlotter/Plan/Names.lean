import HyperPlotter.Plan.Distinct
import HyperPlotter.Verify.Verifier

/-!
# Plot files and their names

`writer_task` names its file after three numbers. The last component of the name
gives them back to the scan of a later run and to the verifier, and tells the files
of a driver apart.
-/

namespace HyperPlotter.Plan

open Foundation Poc Pipeline Verify

/-! ## Paths -/

/-- The separators of a path. -/
def isSeparator (c : Char) : Bool := c == '\\' || c == '/'

/-- `canonical_driver` of a driver's writer: a separator ends it. -/
def canonicalDriver (driver : Text) : Text :=
  if driver.getLast?.any isSeparator then driver else driver ++ ['\\']

/-- The last component of a path. -/
def filename (path : Text) : Text := (path.reverse.takeWhile (!isSeparator ·)).reverse

/-- A driver ends with a separator. -/
theorem canonicalDriver_separated (driver : Text) :
    ∃ c before, canonicalDriver driver = before ++ [c] ∧ isSeparator c := by
  unfold canonicalDriver
  split
  · next ends =>
      obtain ⟨c, last, separator⟩ := (Option.any_eq_true ..).mp ends
      obtain ⟨before, rfl⟩ := List.getLast?_eq_some_iff.mp last
      exact ⟨c, before, rfl, separator⟩
  · exact ⟨'\\', driver, rfl, rfl⟩

/-- What is behind the driver is the last component, if it has no separator. -/
theorem filename_canonicalDriver (driver : Text) {name : Text}
    (plain : ∀ c ∈ name, isSeparator c = false) :
    filename (canonicalDriver driver ++ name) = name := by
  obtain ⟨c, before, driver_eq, separator⟩ := canonicalDriver_separated driver
  have inside : ∀ d ∈ name.reverse, (!isSeparator d) = true := by
    intro d member
    simp [plain d (List.mem_reverse.mp member)]
  have ended : (before ++ [c]).reverse.takeWhile (!isSeparator ·) = [] := by
    rw [List.reverse_append, List.reverse_singleton, List.singleton_append,
      List.takeWhile_cons_of_neg (by simp [separator])]
  unfold filename
  rw [driver_eq, List.reverse_append, List.takeWhile_append_of_pos inside, ended, List.append_nil,
    List.reverse_reverse]

/-! ## Names -/

/-- The numbers a plot file is named after. -/
structure PlotNumbers where
  pid : Nat
  sn : Nat
  nonces : Nat
  pid_lt : pid < 18446744073709551616
  sn_lt : sn < 18446744073709551616
  positive : 0 < nonces
  small : nonces < 2147483647

namespace PlotNumbers

/-- The name below the driver. -/
def name (numbers : PlotNumbers) : Text := plotName numbers.pid numbers.sn numbers.nonces

/-- `pf_` of a writer task on a driver. -/
def path (numbers : PlotNumbers) (driver : Text) : Text := canonicalDriver driver ++ numbers.name

/-- The scan of a request goes by the file. -/
def Counts (numbers : PlotNumbers) (request : PlanRequest) : Prop :=
  numbers.pid = request.plotId ∧
    numbers.sn / 4294967296 = request.startNonce / 4294967296

/-- A finished file of these numbers. -/
structure Finished (numbers : PlotNumbers) (entry : DirEntry) : Prop where
  file : entry.directory = false
  named : entry.name = numbers.name

/-- What the scan of a later run and the verifier take from a name. -/
structure ReadFrom (numbers : PlotNumbers) (name : Text) : Prop where
  no_extension : '.' ∉ name
  parts : ∃ pid sn nonces, split name '_' = [pid, sn, nonces] ∧ stoull pid = some numbers.pid ∧
    stoull sn = some numbers.sn ∧ stoll nonces = some (numbers.nonces : Int)
  counted : ∀ request : PlanRequest, numbers.Counts request →
    request.plotEnd name = some (some (toUInt64 (numbers.sn + numbers.nonces)))
  passed : ∀ request : PlanRequest, ¬numbers.Counts request → request.plotEnd name = some none
  verified : ∀ (v : Verifier) (entry : FileEntry) (rounds : Nat),
    runPlotVerify v name (some entry) rounds =
      if v.opens then
        verifyFile v entry numbers.pid numbers.sn numbers.nonces rounds v.start
      else (.invalid, v.start)

variable (numbers : PlotNumbers)

private theorem plain : ∀ c ∈ numbers.name, isSeparator c = false := by
  intro c member
  unfold name plotName at member
  have number : ∀ n, c ∈ decimal n → isSeparator c = false := by
    intro n digit
    have digit := isDigit_of_mem_decimal digit
    unfold isSeparator
    rw [Bool.or_eq_false_iff]
    constructor
    · exact beq_eq_false_iff_ne.mpr (by rintro rfl; cases digit)
    · exact beq_eq_false_iff_ne.mpr (by rintro rfl; cases digit)
  rcases List.mem_append.mp member with digit | member
  · exact number _ digit
  rcases List.mem_cons.mp member with rfl | member
  · rfl
  rcases List.mem_append.mp member with digit | member
  · exact number _ digit
  rcases List.mem_cons.mp member with rfl | digit
  · rfl
  · exact number _ digit

/-- The numbers come back from the name. -/
theorem readFrom_name : numbers.ReadFrom numbers.name := by
  have third : stoll (decimal numbers.nonces) = some (numbers.nonces : Int) :=
    stoll_decimal (numbers.small.trans (by decide))
  have parts : split numbers.name '_' =
      [decimal numbers.pid, decimal numbers.sn, decimal numbers.nonces] := split_plotName ..
  refine ⟨dot_notMem_plotName _ _ _, ⟨_, _, _, parts, stoull_decimal numbers.pid_lt,
    stoull_decimal numbers.sn_lt, third⟩, ?_, ?_, ?_⟩
  · rintro request ⟨own, range⟩
    unfold name
    rw [own, PlanRequest.plotEnd_plotName numbers.sn_lt range, third]
    rfl
  · exact fun request passed =>
      PlanRequest.plotEnd_plotName_none numbers.pid_lt numbers.sn_lt passed
  · intro v entry rounds
    unfold runPlotVerify
    simp only [parts, stoull_decimal numbers.pid_lt, stoull_decimal numbers.sn_lt, third]

/-- Names tell their numbers. -/
theorem name_injective : Function.Injective name := by
  intro first second same
  obtain ⟨pid, sn, nonces⟩ := plotName_inj.mp same
  cases first
  cases second
  subst pid sn nonces
  rfl

/-- The file name of a path. -/
theorem filename_path (driver : Text) : filename (numbers.path driver) = numbers.name :=
  filename_canonicalDriver driver numbers.plain

/-! ## Scans of finished files -/

variable {numbers} {request : PlanRequest} {entry : DirEntry}

/-- A finished file has no extension. -/
theorem Finished.no_extension (finished : numbers.Finished entry) : ¬entry.hasExtension := by
  unfold DirEntry.hasExtension
  rw [finished.named]
  simpa using numbers.readFrom_name.no_extension

/-- A finished file of any numbers can be read. -/
theorem Finished.readable (finished : numbers.Finished entry) : request.Readable entry := by
  refine .inr (.inr ?_)
  rw [finished.named]
  by_cases counts : numbers.Counts request
  · rw [numbers.readFrom_name.counted request counts]
    rfl
  · rw [numbers.readFrom_name.passed request counts]
    rfl

/-- A finished file that counts, counts with its end. -/
theorem Finished.countedEnd (finished : numbers.Finished entry) (counts : numbers.Counts request)
    (bound : numbers.sn + numbers.nonces < 18446744073709551616) :
    request.countedEnd entry = numbers.sn + numbers.nonces := by
  unfold PlanRequest.countedEnd
  rw [if_neg (by simp [finished.file, finished.no_extension]), finished.named,
    numbers.readFrom_name.counted request counts]
  exact toUInt64_natCast bound

/-- One that does not count is passed. -/
theorem Finished.countedEnd_passed (finished : numbers.Finished entry)
    (passed : ¬numbers.Counts request) : request.countedEnd entry = 0 := by
  unfold PlanRequest.countedEnd
  rw [if_neg (by simp [finished.file, finished.no_extension]), finished.named,
    numbers.readFrom_name.passed request passed]
  rfl

/-- A directory of finished files and of entries the scan does not read. -/
structure PlotDirectory (request : PlanRequest) (entries : List DirEntry) : Prop where
  named : ∀ entry ∈ entries, entry.directory ∨ entry.hasExtension ∨
    ∃ numbers : PlotNumbers, numbers.Finished entry
  bounded : ∀ entry ∈ entries, ∀ numbers : PlotNumbers, numbers.Finished entry →
    numbers.Counts request → numbers.sn + numbers.nonces < 18446744073709551616

/-- `last_sn` is the end of the last file that counts, or nothing. -/
structure LastEnd (request : PlanRequest) (entries : List DirEntry) (last : Nat) : Prop where
  upper : ∀ entry ∈ entries, ∀ numbers : PlotNumbers, numbers.Finished entry →
    numbers.Counts request → numbers.sn + numbers.nonces ≤ last
  attained : last = 0 ∨ ∃ entry ∈ entries, ∃ numbers : PlotNumbers, numbers.Finished entry ∧
    numbers.Counts request ∧ last = numbers.sn + numbers.nonces

/-- A scan of plot files finds the last end. -/
theorem PlotDirectory.scan {drive : Drive} (plots : PlotDirectory request drive.entries) :
    ∃ scan, request.scan drive = some scan ∧ LastEnd request drive.entries scan.lastSn := by
  have readable : ∀ entry ∈ drive.entries, request.Readable entry := by
    intro entry member
    rcases plots.named entry member with directory | extension | ⟨numbers, finished⟩
    · exact .inl directory
    · exact .inr (.inl extension)
    · exact finished.readable
  refine ⟨_, PlanRequest.scan_of_readable readable, ?_, ?_⟩
  · intro entry member numbers finished counts
    rw [← finished.countedEnd counts (plots.bounded entry member numbers finished counts)]
    exact PlanRequest.countedEnd_le member
  · rcases request.lastSn_cases drive.entries with none | ⟨entry, member, last⟩
    · exact .inl none
    · rcases plots.named entry member with directory | extension | ⟨numbers, finished⟩
      · exact .inl (last.trans (if_pos (.inl directory)))
      · exact .inl (last.trans (if_pos (.inr extension)))
      · by_cases counts : numbers.Counts request
        · have bound := plots.bounded entry member numbers finished counts
          exact .inr ⟨entry, member, numbers, finished, counts,
            last.trans (finished.countedEnd counts bound)⟩
        · exact .inl (last.trans (finished.countedEnd_passed counts))

end PlotNumbers

/-! ## Round trips -/

/-- The path of a planned file on a driver. -/
def filePath (driver : Text) (file : PlannedFile) : Text :=
  canonicalDriver driver ++ plotName file.pid file.sn file.nonces.toNat

/-- The name of a plot file gives its numbers back, so that it belongs to them only
and the planned files of a driver have different names, and the scan of finished
files finds the last of their ends. -/
theorem plotNames_roundTrip :
    (∀ (numbers : PlotNumbers) (driver : Text), numbers.ReadFrom (filename (numbers.path driver))) ∧
    (∀ (first second : PlotNumbers) (driver : Text),
      first.path driver = second.path driver → first = second) ∧
    (∀ request drives p, Planner.plan request drives = some p → ∀ driver,
      ((p.files driver).map (filePath driver)).Nodup) ∧
    ∀ (request : PlanRequest) (drive : Drive), PlotNumbers.PlotDirectory request drive.entries →
      ∃ scan, request.scan drive = some scan ∧
        PlotNumbers.LastEnd request drive.entries scan.lastSn := by
  refine ⟨?_, ?_, ?_, fun request drive plots => plots.scan⟩
  · intro numbers driver
    rw [numbers.filename_path]
    exact numbers.readFrom_name
  · intro first second driver same
    exact PlotNumbers.name_injective (List.append_cancel_left same)
  · intro request drives p planned driver
    refine List.Nodup.map_on ?_ (Planner.plan_files_nodup planned driver)
    have reached := Planner.plan_reachable planned
    have pushed : ∀ file ∈ p.files driver, file.pid = request.plotId ∧ 0 < file.nonces := by
      intro file member
      obtain ⟨pair, listed, rfl⟩ := List.mem_map.mp member
      have there := List.mem_of_mem_filter listed
      exact ⟨Planner.reachable_pid reached pair there,
        ((Planner.reachable_planning reached).sizes pair there).positive⟩
    intro first member second member' same
    obtain ⟨pid, sn, nonces⟩ := plotName_inj.mp (List.append_cancel_left same)
    have positive := (pushed first member).2
    have positive' := (pushed second member').2
    cases first
    cases second
    simp only [PlannedFile.mk.injEq] at *
    omega

/-- The second of two drivers. -/
theorem plotNames_roundTrip_twoDrivers :
    ∃ scan, twoDrivers.scan (twoDrives "b".toList) = some scan ∧
      PlotNumbers.LastEnd twoDrivers (twoDrives "b".toList).entries scan.lastSn := by
  let numbers : PlotNumbers := ⟨1, 64, 72, by decide, by decide, by decide, by decide⟩
  have entries : (twoDrives "b".toList).entries = [⟨numbers.name, false, 18874368⟩] := by
    decide +kernel
  refine plotNames_roundTrip.2.2.2 twoDrivers (twoDrives "b".toList) ⟨?_, ?_⟩
  · rw [entries]
    exact List.forall_mem_singleton.mpr (.inr (.inr ⟨numbers, rfl, rfl⟩))
  · rw [entries]
    refine List.forall_mem_singleton.mpr fun other finished _ => ?_
    obtain rfl : numbers = other := PlotNumbers.name_injective finished.named
    decide

end HyperPlotter.Plan
