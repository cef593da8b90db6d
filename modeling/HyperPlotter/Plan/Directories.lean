import HyperPlotter.Foundation.Numerals

/-!
# The directories of the command line

`main` joins its directory arguments into one string, and `run_plotter` takes that
string apart again at the matches of a regular expression.
-/

namespace HyperPlotter.Plan

open Foundation

/-- The string `main` makes of its directory arguments. -/
def joinDirectories : List Text → Text
  | [] => []
  | first :: rest => rest.foldl (fun joined dir => joined ++ ", ".toList ++ dir) first

/-- The tokens between the leftmost matches of `, `, which `sregex_token_iterator`
goes through. An empty token is dropped behind the last match only. -/
def driverTokens : Text → Text → List Text
  | token, ',' :: ' ' :: rest => token :: driverTokens [] rest
  | token, c :: rest => driverTokens (token ++ [c]) rest
  | token, [] => if token = [] then [] else [token]

/-- The drivers of `run_plotter`, none if it gives up. -/
def driversOf (patharg : Text) : Option (List Text) :=
  let drivers := driverTokens [] patharg
  if patharg = [] ∨ drivers = [] then none else some drivers

/-- There is a `, ` in the text. -/
def HasSeparator (text : Text) : Prop := [',', ' '] <:+: text

/-! ## Joining -/

/-- The first directory and the others. -/
theorem joinDirectories_cons (first second : Text) (rest : List Text) :
    joinDirectories (first :: second :: rest) =
      first ++ ", ".toList ++ joinDirectories (second :: rest) := by
  have general : ∀ (rest : List Text) (before start : Text),
      rest.foldl (fun joined dir => joined ++ ", ".toList ++ dir) (before ++ start) =
        before ++ rest.foldl (fun joined dir => joined ++ ", ".toList ++ dir) start := by
    intro rest
    induction rest with
    | nil => exact fun _ _ => rfl
    | cons dir rest ih =>
        intro before start
        rw [List.foldl_cons, List.foldl_cons, List.append_assoc before, List.append_assoc before, ih]
  exact general rest (first ++ ", ".toList) second

/-! ## Splitting -/

/-- A character that starts no separator goes into the token. -/
theorem driverTokens_cons {c : Char} {rest : Text} (plain : ¬(c = ',' ∧ rest.head? = some ' '))
    (token : Text) : driverTokens token (c :: rest) = driverTokens (token ++ [c]) rest := by
  rw [driverTokens]
  rintro after rfl rfl
  exact plain ⟨rfl, rfl⟩

/-- A separator is at the front or behind it. -/
theorem hasSeparator_cons {c : Char} {text : Text} :
    HasSeparator (c :: text) ↔ c = ',' ∧ text.head? = some ' ' ∨ HasSeparator text := by
  unfold HasSeparator
  rw [List.infix_cons_iff, List.cons_prefix_cons]
  refine or_congr_left (and_congr eq_comm ?_)
  cases text with
  | nil => simp
  | cons d text => simp [eq_comm]

/-- A separator is before the last character or ends with it. -/
theorem hasSeparator_concat {c : Char} {text : Text} :
    HasSeparator (text ++ [c]) ↔ HasSeparator text ∨ text.getLast? = some ',' ∧ c = ' ' := by
  unfold HasSeparator
  rw [List.infix_concat_iff, or_comm, List.suffix_concat_iff]
  refine or_congr_right ⟨?_, ?_⟩
  · rintro (none | ⟨before, same, last⟩)
    · cases none
    · have parts : [','] ++ [' '] = before ++ [c] := same
      obtain ⟨rfl, blank⟩ := List.append_inj' parts rfl
      obtain ⟨front, rfl⟩ := last
      exact ⟨List.getLast?_concat .., (List.singleton_inj.mp blank).symm⟩
  · rintro ⟨comma, rfl⟩
    obtain ⟨front, rfl⟩ := List.getLast?_eq_some_iff.mp comma
    exact .inr ⟨[','], rfl, front, rfl⟩

/-- A text without a separator goes into the token up to the next separator. -/
theorem driverTokens_separated {text : Text} (plain : ¬HasSeparator text) (token rest : Text) :
    driverTokens token (text ++ ", ".toList ++ rest) = (token ++ text) :: driverTokens [] rest := by
  induction text generalizing token with
  | nil =>
      rw [List.append_nil]
      rfl
  | cons c text ih =>
      rw [hasSeparator_cons, not_or] at plain
      have next : ¬(c = ',' ∧ (text ++ ", ".toList ++ rest).head? = some ' ') := by
        rintro ⟨rfl, blank⟩
        cases text with
        | nil => exact absurd (Option.some.inj blank) (by decide)
        | cons d text => exact plain.1 ⟨rfl, blank⟩
      have step : driverTokens token (c :: text ++ ", ".toList ++ rest) =
          driverTokens (token ++ [c]) (text ++ ", ".toList ++ rest) := driverTokens_cons next token
      rw [step, ih plain.2, List.append_assoc]
      rfl

/-- A text without a separator is one token. -/
theorem driverTokens_last {text : Text} (plain : ¬HasSeparator text) {token : Text}
    (nonempty : token ++ text ≠ []) : driverTokens token text = [token ++ text] := by
  induction text generalizing token with
  | nil =>
      rw [List.append_nil] at nonempty ⊢
      exact if_neg nonempty
  | cons c text ih =>
      rw [hasSeparator_cons, not_or] at plain
      rw [driverTokens_cons plain.1, ih plain.2 (by simp), List.append_assoc]
      rfl

/-- No token has a separator. -/
theorem driverTokens_plain {token text : Text} (plain : ¬HasSeparator token)
    (apart : ¬(token.getLast? = some ',' ∧ text.head? = some ' ')) :
    ∀ piece ∈ driverTokens token text, ¬HasSeparator piece := by
  fun_induction driverTokens token text with
  | case1 token rest ih =>
      refine List.forall_mem_cons.mpr ⟨plain, ih ?_ ?_⟩
      · exact fun inside => absurd inside (by unfold HasSeparator; decide)
      · exact fun comma => absurd comma.1 (by simp)
  | case2 token c rest goes ih =>
      refine ih ?_ ?_
      · rw [hasSeparator_concat, not_or]
        exact ⟨plain, fun blank => apart ⟨blank.1, congrArg some blank.2⟩⟩
      · rw [List.getLast?_concat]
        rintro ⟨comma, blank⟩
        obtain ⟨after, rfl⟩ := List.head?_eq_some_iff.mp blank
        exact goes after (Option.some.inj comma) rfl
  | case3 => exact List.forall_mem_nil _
  | case4 => exact List.forall_mem_singleton.mpr plain

/-! ## Round trips -/

/-- The directories come back exactly when none of them has a separator inside. -/
theorem driversOf_joinDirectories {dirs : List Text} (some_dirs : dirs ≠ [])
    (nonempty : ∀ dir ∈ dirs, dir ≠ []) :
    driversOf (joinDirectories dirs) = some dirs ↔ ∀ dir ∈ dirs, ¬HasSeparator dir := by
  have round : (∀ dir ∈ dirs, ¬HasSeparator dir) →
      driverTokens [] (joinDirectories dirs) = dirs := by
    intro plain
    induction dirs with
    | nil => exact absurd rfl some_dirs
    | cons first rest ih =>
        obtain ⟨here, later⟩ := List.forall_mem_cons.mp plain
        obtain ⟨first_nonempty, rest_nonempty⟩ := List.forall_mem_cons.mp nonempty
        cases rest with
        | nil => exact driverTokens_last here first_nonempty
        | cons second rest =>
            rw [joinDirectories_cons, driverTokens_separated here,
              ih (by simp) rest_nonempty later]
            rfl
  have no_path : joinDirectories dirs ≠ [] := by
    cases dirs with
    | nil => exact absurd rfl some_dirs
    | cons first rest =>
        have first_nonempty := nonempty first (List.mem_cons_self ..)
        cases rest with
        | nil => exact first_nonempty
        | cons second rest =>
            rw [joinDirectories_cons]
            simp
  unfold driversOf
  constructor
  · intro same
    obtain ⟨_, tokens⟩ := Option.ite_none_left_eq_some.mp same
    rw [← Option.some.inj tokens]
    refine driverTokens_plain (fun inside => ?_) (fun comma => ?_)
    · exact absurd inside (by unfold HasSeparator; decide)
    · exact absurd comma.1 (by simp)
  · intro plain
    rw [round plain]
    exact if_neg (not_or.mpr ⟨no_path, some_dirs⟩)

/-- A directory that ends with a comma. -/
theorem driversOf_joinDirectories_comma :
    driversOf (joinDirectories ["D:\\plots,".toList, " E:\\plots".toList]) =
      some ["D:\\plots,".toList, " E:\\plots".toList] := by
  refine (driversOf_joinDirectories (by simp) (by simp)).mpr ?_
  unfold HasSeparator
  decide +kernel

/-- A directory with a separator in its name is taken for two. -/
theorem driversOf_joinDirectories_split :
    driversOf (joinDirectories ["D:\\plots, old".toList]) =
        some ["D:\\plots".toList, "old".toList] ∧
      driversOf (joinDirectories ["D:\\plots, old".toList]) ≠
        some ["D:\\plots, old".toList] := by
  decide +kernel

end HyperPlotter.Plan
