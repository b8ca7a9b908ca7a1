import Orphans.CommandLine.Occurrence

/-!
# Reading occurrences

The reader of arguments keeps an argument back until the next one is known. `Draft.keep?` keeps each
occurrence at once, and `settled?_foldlM_read` says that the reader comes to the same in the end,
however the occurrences are written.

An occurrence, however it is written, lets the reader settle what it has kept back, checks a part of
the occurrence and keeps the rest back; what it would settle then is what `Draft.keep?` gives
(`exists_check`). The run lemma follows by induction on the occurrences.

Which error is reported depends on the way of writing, so both sides are compared as to whether
there is a result and which one (`Except.toOption`).
-/

namespace Orphans

/-- Without its error, a result is still the result. -/
theorem Except.toOption_eq_some_iff {ε α : Type} {x : Except ε α} {a : α} :
    x.toOption = some a ↔ x = .ok a := by
  cases x <;> simp [Except.toOption]

/-- Errors can be left aside before one computation is followed by another. -/
theorem Except.toOption_bind {ε α β : Type} (x : Except ε α) (f : α → Except ε β) :
    (x.bind f).toOption = x.toOption.bind fun a => (f a).toOption := by
  cases x <;> rfl

/-! ### Long names and letters -/

namespace Switch

/-- A long name is found in the table, and names no other switch. -/
theorem ofLong?_of_mem {name : String} {switch : Switch} (h : (name, switch) ∈ longNames) :
    ofLong? name.toList = some switch := by
  have all : ∀ entry ∈ longNames, ofLong? entry.1.toList = some entry.2 := by decide
  exact all _ h

/-- No long name has the sign by which a value is attached. -/
theorem not_mem_of_longNames {name : String} {switch : Switch} (h : (name, switch) ∈ longNames) :
    '=' ∉ name.toList := by
  have all : ∀ entry ∈ longNames, '=' ∉ entry.1.toList := by decide
  exact all _ h

/-- No long name is empty, so none is written as `--`. -/
theorem toList_ne_nil_of_longNames {name : String} {switch : Switch}
    (h : (name, switch) ∈ longNames) : name.toList ≠ [] := by
  have all : ∀ entry ∈ longNames, entry.1.toList ≠ [] := by decide
  exact all _ h

/-- A letter is found in the table, and names no other switch. -/
theorem ofLetter?_of_mem {letter : Char} {lettered : Lettered} (h : (letter, lettered) ∈ letters) :
    ofLetter? letter = some lettered := by
  have all : ∀ entry ∈ letters, ofLetter? entry.1 = some entry.2 := by decide
  exact all _ h

/-- No letter is a dash, so none is written as `--`. -/
theorem ne_dash_of_letters {letter : Char} {lettered : Lettered}
    (h : (letter, lettered) ∈ letters) : letter ≠ '-' := by
  have all : ∀ entry ∈ letters, entry.1 ≠ '-' := by decide
  exact all _ h

end Switch

/-! ### One occurrence -/

namespace Draft

/-- Keeps an occurrence at once. This is the reader without the delay, and it is told the occurrence
only, not the arguments that the occurrence is written with. -/
def keep? (draft : Draft) : Occurrence → Option Draft
  | .root value => if draft.root.isSome then none else (draft.setRoot value).toOption
  | .flag flag => (draft.setFlag flag).toOption
  | .setting setting value => (draft.set setting value).toOption

/-- A root is kept if it is not empty. -/
theorem setRoot_eq_ok_iff {draft draft' : Draft} {value : Text} :
    draft.setRoot value = .ok draft' ↔ value ≠ [] ∧ draft' = { draft with root := some value } := by
  unfold setRoot
  split
  · next empty => simp [empty]
  · next nonempty => simp [nonempty, eq_comm]

/-- A flag is kept if it is new. -/
theorem setFlag_eq_ok_iff {draft draft' : Draft} {flag : Flag} :
    draft.setFlag flag = .ok draft' ↔
      flag ∉ draft.flags ∧ draft' = { draft with flags := draft.flags ++ [flag] } := by
  unfold setFlag
  split
  · next given => simp [given]
  · next new => simp [new, eq_comm]

/-- A source root is kept if it is the first, and not empty. -/
theorem setSourceRoot_eq_ok_iff {draft draft' : Draft} {value : Text} :
    draft.setSourceRoot value = .ok draft' ↔
      draft.sourceRoot = none ∧ value ≠ [] ∧ draft' = { draft with sourceRoot := some value } := by
  unfold setSourceRoot
  cases given : draft.sourceRoot with
  | some before => simp
  | none =>
    by_cases empty : value = []
    · simp [empty]
    · simp [empty, eq_comm]

/-- A strategy is kept if it is the first, and one that there is. -/
theorem setStrategy_eq_ok_iff {draft draft' : Draft} {value : Text} :
    draft.setStrategy value = .ok draft' ↔
      draft.strategy = none ∧ ∃ strategy, Strategy.ofName? value = some strategy ∧
        draft' = { draft with strategy := some strategy } := by
  unfold setStrategy
  cases given : draft.strategy with
  | some before => simp
  | none =>
    cases named : Strategy.ofName? value with
    | none =>
      by_cases empty : value = []
      · simp [empty]
      · simp [empty]
    | some strategy =>
      -- no strategy has an empty name, so the check for an empty value takes nothing away
      have nonempty : value ≠ [] := by
        rintro rfl
        cases named
      simp [nonempty, eq_comm]

/-- A setting leaves the root as it is. -/
theorem root_set {draft draft' : Draft} {setting : Setting} {value : Text}
    (h : draft.set setting value = .ok draft') : draft'.root = draft.root := by
  cases setting with
  | sourceRoot =>
    obtain ⟨-, -, rfl⟩ := setSourceRoot_eq_ok_iff.mp h
    rfl
  | strategy =>
    obtain ⟨-, strategy, -, rfl⟩ := setStrategy_eq_ok_iff.mp h
    rfl
  | extensions =>
    cases h
    rfl
  | implicitFiles =>
    cases h
    rfl
  | excludeDirs =>
    cases h
    rfl

end Draft

namespace ArgumentReader

variable {reader : ArgumentReader} {draft : Draft} {value : Text}

/-- A reader that waits for no value, before `--`. -/
structure Ready (reader : ArgumentReader) : Prop where
  /-- No setting is still without its value. -/
  not_open : ∀ setting, reader.unsettled ≠ some (.open setting)
  /-- Switches are still read as such. -/
  beforeDashes : reader.afterDashes = false

/-- Whether there is a root already shows in what would be settled. So the reader, which has to ask
this before it settles, asks the same as `Draft.keep?`, which settles at once. -/
theorem hasRoot_of_settle (h : reader.settle = .ok draft) : reader.hasRoot = draft.root.isSome := by
  obtain ⟨before, unsettled, afterDashes⟩ := reader
  match unsettled with
  | none =>
    cases h
    simp [hasRoot]
  | some (.root value) =>
    obtain ⟨-, rfl⟩ := Draft.setRoot_eq_ok_iff.mp h
    simp [hasRoot]
  | some (.open setting) => cases h
  | some (.closed setting value) =>
    have same := Draft.root_set h
    simp [hasRoot, same]

/-- What is no switch is empty, one dash, or begins with something else. -/
theorem cases_of_isPlain (plain : IsPlain value) :
    value = [] ∨ value = ['-'] ∨ ∃ c rest, value = c :: rest ∧ c ≠ '-' := by
  match value, plain with
  | [], _ => exact .inl rfl
  | c :: rest, .inl h => exact .inr (.inr ⟨c, rest, rfl, by simpa using h⟩)
  | c :: rest, .inr h => exact .inr (.inl h)

/-- An argument that is no switch is a root, unless a setting waits for its value. -/
theorem read_root (ready : reader.Ready) (plain : IsPlain value) :
    reader.read value = reader.readRoot value := by
  obtain ⟨before, unsettled, afterDashes⟩ := reader
  obtain rfl : afterDashes = false := ready.beforeDashes
  rcases unsettled with _ | given | setting | ⟨setting, given⟩
  case some.open => exact absurd rfl (ready.not_open setting)
  all_goals
    rcases cases_of_isPlain plain with rfl | rfl | ⟨c, rest, rfl, ne⟩
    · rfl
    · rfl
    · simp [read, ne]

/-- What is no switch is the value that a setting waits for. -/
theorem read_value (setting : Setting) (plain : IsPlain value) :
    read ⟨draft, some (.open setting), false⟩ value =
      .ok ⟨draft, some (.closed setting value), false⟩ := by
  rcases cases_of_isPlain plain with rfl | rfl | ⟨c, rest, rfl, ne⟩
  · rfl
  · rfl
  · simp [read, ne]

/-- The argument that is a long name with something after it. -/
theorem read_long (before : reader.afterDashes = false) {name : String} {switch : Switch}
    (h : (name, switch) ∈ Switch.longNames) (rest : Text) :
    reader.read (longArgument name ++ rest) = reader.readLong (name.toList ++ rest) := by
  unfold read
  rw [before]
  match hname : name.toList with
  | [] => exact absurd hname (Switch.toList_ne_nil_of_longNames h)
  | c :: letters => simp [longArgument, hname]

/-- The long name of a flag gives the flag. -/
theorem read_flagName (before : reader.afterDashes = false) {name : String} {flag : Flag}
    (h : (name, .flag flag) ∈ Switch.longNames) :
    reader.read (longArgument name) = reader.readFlag flag := by
  have long := read_long before h []
  rw [List.append_nil, List.append_nil] at long
  rw [long, readLong, Text.cut_of_not_mem (Switch.not_mem_of_longNames h)]
  simp [Switch.ofLong?_of_mem h]

/-- The long name of a setting gives the setting, without a value. -/
theorem read_settingName (before : reader.afterDashes = false) {name : String} {setting : Setting}
    (h : (name, .setting setting) ∈ Switch.longNames) :
    reader.read (longArgument name) = reader.readSetting setting none := by
  have long := read_long before h []
  rw [List.append_nil, List.append_nil] at long
  rw [long, readLong, Text.cut_of_not_mem (Switch.not_mem_of_longNames h)]
  simp [Switch.ofLong?_of_mem h]

/-- With something attached to it, it gives the setting with this value. -/
theorem read_attached (before : reader.afterDashes = false) {name : String} {setting : Setting}
    (h : (name, .setting setting) ∈ Switch.longNames) (value : Text) :
    reader.read (longArgument name ++ '=' :: value) = reader.readSetting setting (some value) := by
  rw [read_long before h, readLong, Text.cut_append_cons (Switch.not_mem_of_longNames h)]
  simp [Switch.ofLong?_of_mem h]

/-- A letter gives its flag. -/
theorem read_letter (before : reader.afterDashes = false) {letter : Char} {flag : Flag}
    (h : (letter, .flag flag) ∈ Switch.letters) :
    reader.read ['-', letter] = reader.readFlag flag := by
  have letters : reader.readLetters [letter] = reader.readFlag flag := by
    unfold readLetters
    rw [Switch.ofLetter?_of_mem h]
    dsimp only
    cases reader.readFlag flag <;> rfl
  rw [← letters]
  simp [read, before, Switch.ne_dash_of_letters h]

/-- One argument is read by one step. -/
theorem foldlM_read_singleton (reader : ArgumentReader) (arg : Text) :
    [arg].foldlM read reader = reader.read arg := by
  rw [List.foldlM_cons]
  cases reader.read arg <;> rfl

/-! ### Checks -/

/-- What the reader would settle. -/
def settled? (reader : ArgumentReader) : Option Draft :=
  reader.settle.toOption

/-- A flag lets the reader settle, is kept at once, and leaves nothing to settle. -/
theorem toOption_readFlag (before : reader.afterDashes = false) (flag : Flag) :
    (reader.readFlag flag).toOption =
      (reader.settled?.bind fun draft => (draft.setFlag flag).toOption).map (⟨·, none, false⟩) := by
  unfold readFlag settled?
  rw [← Except.toOption_bind]
  cases reader.settle.bind (·.setFlag flag) with
  | error error => rfl
  | ok draft => simp [proceed, before, Except.toOption]

/-- A setting without a value lets the reader settle, and waits. -/
theorem toOption_readSetting_none (before : reader.afterDashes = false) (setting : Setting) :
    (reader.readSetting setting none).toOption =
      reader.settled?.map (⟨·, some (.open setting), false⟩) := by
  unfold readSetting settled?
  cases reader.settle with
  | error error => rfl
  | ok draft => simp [proceed, before, Except.toOption]

/-- A setting with its value is kept at once. -/
theorem toOption_readSetting_some (before : reader.afterDashes = false) (setting : Setting)
    (value : Text) :
    (reader.readSetting setting (some value)).toOption =
      (reader.settled?.bind fun draft => (draft.set setting value).toOption).map
        (⟨·, none, false⟩) := by
  unfold readSetting settled?
  cases reader.settle with
  | error error => rfl
  | ok draft =>
    simp only [Except.toOption, Option.bind_some]
    cases draft.set setting value with
    | error error => rfl
    | ok draft => simp [proceed, before]

/-- A root lets the reader settle, must be the first, and is kept back. -/
theorem toOption_readRoot (before : reader.afterDashes = false) (value : Text) :
    (reader.readRoot value).toOption =
      (reader.settled?.bind fun draft => if draft.root.isSome then none else some draft).map
        (⟨·, some (.root value), false⟩) := by
  unfold readRoot settled?
  cases hsettle : reader.settle with
  | error error =>
    split <;> rfl
  | ok draft =>
    rw [hasRoot_of_settle hsettle]
    cases given : draft.root.isSome with
    | false => simp [proceed, before, given, Except.toOption]
    | true => simp [given, Except.toOption]

/-- An occurrence lets a reader settle, is checked in part, and leaves something to settle, which is
what `Draft.keep?` keeps. -/
theorem exists_check {occurrence : Occurrence} {args : List Text}
    (written : occurrence.IsWritten args) :
    ∃ (check : Draft → Option Draft) (unsettled : Option Unsettled),
      (∀ draft, Ready ⟨draft, unsettled, false⟩) ∧
      (∀ draft, draft.keep? occurrence =
        (check draft).bind fun draft => settled? ⟨draft, unsettled, false⟩) ∧
      ∀ reader : ArgumentReader, reader.Ready →
        (args.foldlM read reader).toOption =
          (reader.settled?.bind check).map (⟨·, unsettled, false⟩) := by
  cases written with
  | @root value plain =>
    refine ⟨fun draft => if draft.root.isSome then none else some draft, some (.root value),
      fun _ => ⟨nofun, rfl⟩, ?_, ?_⟩
    · intro draft
      unfold Draft.keep?
      dsimp only
      split <;> rfl
    · intro reader ready
      rw [foldlM_read_singleton, read_root ready plain]
      exact toOption_readRoot ready.beforeDashes value
  | @name flag name named =>
    refine ⟨fun draft => (draft.setFlag flag).toOption, none, fun _ => ⟨nofun, rfl⟩, ?_, ?_⟩
    · intro draft
      exact (Option.bind_fun_some _).symm
    · intro reader ready
      rw [foldlM_read_singleton, read_flagName ready.beforeDashes named]
      exact toOption_readFlag ready.beforeDashes flag
  | @letter flag letter lettered =>
    refine ⟨fun draft => (draft.setFlag flag).toOption, none, fun _ => ⟨nofun, rfl⟩, ?_, ?_⟩
    · intro draft
      exact (Option.bind_fun_some _).symm
    · intro reader ready
      rw [foldlM_read_singleton, read_letter ready.beforeDashes lettered]
      exact toOption_readFlag ready.beforeDashes flag
  | @attached setting name value named =>
    refine ⟨fun draft => (draft.set setting value).toOption, none, fun _ => ⟨nofun, rfl⟩, ?_, ?_⟩
    · intro draft
      exact (Option.bind_fun_some _).symm
    · intro reader ready
      rw [foldlM_read_singleton, read_attached ready.beforeDashes named]
      exact toOption_readSetting_some ready.beforeDashes setting value
  | @detached setting name value named plain =>
    refine ⟨some, some (.closed setting value), fun _ => ⟨nofun, rfl⟩, fun _ => rfl, ?_⟩
    intro reader ready
    rw [List.foldlM_cons, read_settingName ready.beforeDashes named]
    -- two arguments, of which the first makes the reader wait for the second
    show (Except.bind _ _).toOption = _
    rw [Except.toOption_bind, toOption_readSetting_none ready.beforeDashes setting]
    cases reader.settled? with
    | none => rfl
    | some draft =>
      show ([value].foldlM read ⟨draft, some (.open setting), false⟩).toOption = _
      rw [foldlM_read_singleton, read_value setting plain]
      rfl

/-- Reading what occurrences are written with, and settling at the end, keeps the occurrences. The
state at which the reading begins is left open for the induction, as long as it waits for no value.
-/
theorem settled?_foldlM_read {occurrences : List Occurrence} {args : List Text}
    (written : Occurrence.AreWritten occurrences args) {reader : ArgumentReader}
    (ready : reader.Ready) :
    (args.foldlM read reader).toOption.bind settled? =
      reader.settled?.bind (occurrences.foldlM Draft.keep?) := by
  induction written generalizing reader with
  | nil => exact (Option.bind_fun_some _).symm
  | @cons occurrence occurrences first rest head _ ih =>
    obtain ⟨check, unsettled, isReady, keeps, reads⟩ := exists_check head
    rw [List.foldlM_append]
    show (Except.bind _ _).toOption.bind settled? = _
    rw [Except.toOption_bind, reads reader ready]
    cases reader.settled? with
    | none => rfl
    | some before =>
      show _ = (before.keep? occurrence).bind (occurrences.foldlM Draft.keep?)
      rw [keeps before, Option.bind_some]
      -- either both stop at the check, or the reader has a draft to go on with and is ready again
      cases check before with
      | none => rfl
      | some draft => exact ih (isReady draft)

end ArgumentReader

end Orphans
