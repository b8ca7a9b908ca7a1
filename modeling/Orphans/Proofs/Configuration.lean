import Mathlib
import Orphans.CommandLine.Configuration
import Orphans.Proofs.Arguments
import Orphans.Proofs.NameSet

/-!
# Configurations of command lines

`Config.ofArguments_isMeantBy`: what a configuration holds is told by the occurrences among the
arguments. The three lists are told by the pieces between commas, and each meets its defaults in its
own way. So the configuration is the same for occurrences in another order, for pieces that are
distributed in another way, and for another way of writing (`Occurrence.Regroups`).

The proof has two halves. `exists_ofArguments` reads the configuration off the occurrences, field by
field (`IsMeantBy`). What is told there leaves no field open (`IsMeantBy.eq`) and does not change
with the order (`IsMeantBy.of_regroups`), so the configuration of any other arguments for the same
occurrences is the same one.
-/

namespace Orphans

/-! ### Occurrences and configurations -/

namespace Config

open Occurrence

/-- What a configuration is told by occurrences, with the root that the environment holds. Of the
settings that are given once, both cases are told: what is given, and what holds if nothing is. -/
structure IsMeantBy (fs : FileSystem) (rootVariable : Option Text) (occurrences : List Occurrence)
    (config : Config) : Prop where
  /-- The root is what the given one leads to. -/
  root : ∃ given, givenRoot? rootVariable occurrences = some given ∧
    fs.canonicalize (.ofText given) = .ok config.root
  /-- Without a source root the root is the source root. -/
  sourceRoot_of_none : (∀ given, .setting .sourceRoot given ∉ occurrences) →
    config.sourceRoot = config.root
  /-- A source root that is given is looked up from the root. -/
  sourceRoot_of_mem : ∀ given, .setting .sourceRoot given ∈ occurrences →
    fs.canonicalize (config.root.join (.ofText given)) = .ok config.sourceRoot
  /-- The index is the default. -/
  strategy_of_none : (∀ name, .setting .strategy name ∉ occurrences) → config.strategy = .index
  /-- A strategy is given by its name. -/
  strategy_of_mem : ∀ name, .setting .strategy name ∈ occurrences →
    Strategy.ofName? name = some config.strategy
  /-- Left-out directories are what is given. -/
  mem_excludeDirs_iff : ∀ name, name ∈ config.excludeDirs ↔
    name ≠ [] ∧ ∃ piece ∈ pieces .excludeDirs occurrences, piece.trim = name
  /-- Entry points are added to the defaults, unless those are not wanted. -/
  mem_implicitFiles_iff : ∀ name, name ∈ config.implicitFiles ↔
    .flag .noDefaultImplicit ∉ occurrences ∧ name ∈ defaultImplicitFiles ∨
      name ≠ [] ∧ ∃ piece ∈ pieces .implicitFiles occurrences, piece.trim = name
  /-- Extensions take the place of the defaults, even if no name is left of them. -/
  extensions_of_none : (∀ value, .setting .extensions value ∉ occurrences) →
    config.extensions = defaultExtensions
  /-- Extensions are normalized one by one. -/
  mem_extensions_iff : (∃ value, .setting .extensions value ∈ occurrences) →
    ∀ name, name ∈ config.extensions ↔
      name ≠ [] ∧ ∃ piece ∈ pieces .extensions occurrences, normalizeExtension piece = name

/-- The lists of a configuration with the lists that are given. -/
theorem withGivenLists_eq (config : Config) (arguments : Arguments) :
    config.withGivenLists arguments =
      { config with
        excludeDirs := nameSet arguments.excludeDirs
        implicitFiles :=
          (if arguments.noDefaultImplicit then ∅ else config.implicitFiles).insertMany
            (cleanNames arguments.implicitFiles)
        extensions := if arguments.extensions = [] then config.extensions
          else extensionSet arguments.extensions } := by
  unfold withGivenLists
  by_cases given : arguments.extensions = []
  · simp only [if_pos given]
    rfl
  · simp only [if_neg given]
    rfl

/-- The configuration of arguments with directories that can be reached. -/
theorem ofArguments_eq_ok {fs : FileSystem} {arguments : Arguments} {root sourceRoot : RawPath}
    (hroot : fs.canonicalize (.ofText arguments.root) = .ok root)
    (hsourceRoot : withGivenSourceRoot fs (ofRoot root) arguments.sourceRoot =
      .ok ((ofRoot root).withSourceRoot sourceRoot)) :
    ofArguments fs arguments = .ok {
      root
      sourceRoot
      strategy := arguments.strategy
      excludeDirs := nameSet arguments.excludeDirs
      implicitFiles := (if arguments.noDefaultImplicit then ∅ else defaultImplicitFiles).insertMany
        (cleanNames arguments.implicitFiles)
      extensions := if arguments.extensions = [] then defaultExtensions
        else extensionSet arguments.extensions } := by
  unfold ofArguments
  dsimp only
  rw [hroot]
  dsimp only
  rw [hsourceRoot]
  exact congrArg Except.ok (withGivenLists_eq _ arguments)

section

variable {fs : FileSystem} {rootVariable : Option Text} {occurrences others : List Occurrence}
  {given : Text} {root : RawPath}

/-- The source root that is given, or else the root. Of several values the first would be taken, but
occurrences that fit together have one at most. -/
theorem exists_sourceRoot (fit : Fit occurrences)
    (hsource : ∀ given, .setting .sourceRoot given ∈ occurrences →
      ∃ sourceRoot, fs.canonicalize (root.join (.ofText given)) = .ok sourceRoot) :
    ∃ sourceRoot, withGivenSourceRoot fs (ofRoot root) (values .sourceRoot occurrences).head? =
        .ok ((ofRoot root).withSourceRoot sourceRoot) ∧
      ((∀ given, .setting .sourceRoot given ∉ occurrences) → sourceRoot = root) ∧
      ∀ given, .setting .sourceRoot given ∈ occurrences →
        fs.canonicalize (root.join (.ofText given)) = .ok sourceRoot := by
  cases hvalue : (values .sourceRoot occurrences).head? with
  | none =>
    have none := values_eq_nil_iff.mp (List.head?_eq_none_iff.mp hvalue)
    exact ⟨root, rfl, fun _ => rfl, fun given h => absurd h (none given)⟩
  | some value =>
    have member : .setting .sourceRoot value ∈ occurrences :=
      mem_values.mp (List.mem_of_head? hvalue)
    obtain ⟨sourceRoot, reached⟩ := hsource value member
    refine ⟨sourceRoot, ?_, fun none => absurd member (none value), ?_⟩
    · have reached' : fs.canonicalize ((ofRoot root).root.join (.ofText value)) = .ok sourceRoot :=
        reached
      unfold withGivenSourceRoot
      dsimp only
      rw [reached']
    · intro given hgiven
      -- there is one source root at most, so it is the first that is given
      have same := (fit.settings .sourceRoot rfl).head?_eq (mem_values.mpr hgiven)
      rw [hvalue, Option.some_inj] at same
      rw [← same, reached]

/-- Occurrences that fit together, with a root and a source root that can be reached, make a
configuration. -/
theorem exists_ofArguments (fit : Fit occurrences)
    (hgiven : givenRoot? rootVariable occurrences = some given)
    (hroot : fs.canonicalize (.ofText given) = .ok root)
    (hsource : ∀ given, .setting .sourceRoot given ∈ occurrences →
      ∃ sourceRoot, fs.canonicalize (root.join (.ofText given)) = .ok sourceRoot) :
    ∃ config, ofArguments fs (.ofOccurrences given occurrences) = .ok config ∧
      config.IsMeantBy fs rootVariable occurrences := by
  obtain ⟨sourceRoot, hsourceRoot, notGiven, isGiven⟩ := exists_sourceRoot fit hsource
  -- every field is now written out, and each of them is compared with what it should hold
  refine ⟨_, ofArguments_eq_ok hroot hsourceRoot, ?_⟩
  exact {
    root := ⟨given, hgiven, hroot⟩
    sourceRoot_of_none := notGiven
    sourceRoot_of_mem := isGiven
    strategy_of_none := by
      intro h
      simp [Arguments.ofOccurrences, values_eq_nil_iff.mpr h]
    strategy_of_mem := by
      intro name h
      have first := (fit.settings .strategy rfl).head?_eq (mem_values.mpr h)
      have named := (fit.settings .strategy rfl).good_of_mem name (mem_values.mpr h)
      obtain ⟨strategy, hstrategy⟩ := Option.isSome_iff_exists.mp named
      simp [Arguments.ofOccurrences, first, hstrategy]
    mem_excludeDirs_iff := fun _ => mem_nameSet
    mem_implicitFiles_iff := by
      intro name
      rw [mem_insertMany_cleanNames, ← mem_flags]
      by_cases dropped : .noDefaultImplicit ∈ flags occurrences
      · simp [Arguments.ofOccurrences, dropped]
      · simp [Arguments.ofOccurrences, dropped]
    extensions_of_none := by
      intro h
      exact if_pos (not_ne_iff.mp fun something => not_exists.mpr h (exists_mem_iff.mpr something))
    mem_extensions_iff := by
      intro h name
      have something : (Arguments.ofOccurrences given occurrences).extensions ≠ [] :=
        exists_mem_iff.mp h
      rw [if_neg something]
      exact mem_extensionSet }

/-! ### The same configuration -/

variable {config config' : Config}

/-- Occurrences tell all of a configuration. Sets of names are equal if they have the same members,
and directories because a path leads to one place only. -/
theorem IsMeantBy.eq (h : config.IsMeantBy fs rootVariable occurrences)
    (h' : config'.IsMeantBy fs rootVariable occurrences) : config' = config := by
  have root : config'.root = config.root := by
    obtain ⟨given, hgiven, hroot⟩ := h.root
    obtain ⟨given', hgiven', hroot'⟩ := h'.root
    obtain rfl : given = given' := Option.some_inj.mp (hgiven.symm.trans hgiven')
    exact Except.ok.inj (hroot'.symm.trans hroot)
  -- the source root is looked up from the root, so the root has to come first
  have sourceRoot : config'.sourceRoot = config.sourceRoot := by
    by_cases given : ∃ value, .setting .sourceRoot value ∈ occurrences
    · obtain ⟨value, hvalue⟩ := given
      have reached := h'.sourceRoot_of_mem value hvalue
      rw [root, h.sourceRoot_of_mem value hvalue] at reached
      exact (Except.ok.inj reached).symm
    · rw [h.sourceRoot_of_none (not_exists.mp given), h'.sourceRoot_of_none (not_exists.mp given),
        root]
  have strategy : config'.strategy = config.strategy := by
    by_cases given : ∃ name, .setting .strategy name ∈ occurrences
    · obtain ⟨name, hname⟩ := given
      have named := h'.strategy_of_mem name hname
      rw [h.strategy_of_mem name hname] at named
      exact (Option.some_inj.mp named).symm
    · rw [h.strategy_of_none (not_exists.mp given), h'.strategy_of_none (not_exists.mp given)]
  have extensions : config'.extensions = config.extensions := by
    by_cases given : ∃ value, .setting .extensions value ∈ occurrences
    · apply Std.ExtTreeSet.ext_mem
      intro name
      rw [h.mem_extensions_iff given, h'.mem_extensions_iff given]
    · rw [h.extensions_of_none (not_exists.mp given), h'.extensions_of_none (not_exists.mp given)]
  have implicitFiles : config'.implicitFiles = config.implicitFiles := by
    apply Std.ExtTreeSet.ext_mem
    intro name
    rw [h.mem_implicitFiles_iff, h'.mem_implicitFiles_iff]
  have excludeDirs : config'.excludeDirs = config.excludeDirs := by
    apply Std.ExtTreeSet.ext_mem
    intro name
    rw [h.mem_excludeDirs_iff, h'.mem_excludeDirs_iff]
  cases config
  cases config'
  simp only [Config.mk.injEq]
  exact ⟨root, sourceRoot, extensions, implicitFiles, excludeDirs, strategy⟩

/-- The order of the occurrences tells nothing, nor does the way in which pieces are distributed.
Each field is told by members and by single values, and these are the same on both sides. -/
theorem IsMeantBy.of_regroups (same : Regroups occurrences others) (fit : Fit occurrences)
    (h : config.IsMeantBy fs rootVariable others) :
    config.IsMeantBy fs rootVariable occurrences := by
  have sourceRoot (value : Text) : .setting .sourceRoot value ∈ occurrences ↔
      .setting .sourceRoot value ∈ others := by
    rw [← mem_values, ← mem_values, same.values_eq fit rfl]
  have strategy (name : Text) : .setting .strategy name ∈ occurrences ↔
      .setting .strategy name ∈ others := by
    rw [← mem_values, ← mem_values, same.values_eq fit rfl]
  have dropped : .flag .noDefaultImplicit ∈ occurrences ↔ .flag .noDefaultImplicit ∈ others := by
    rw [← mem_flags, ← mem_flags, same.mem_flags_iff]
  have given : (∃ value, .setting .extensions value ∈ occurrences) ↔
      ∃ value, .setting .extensions value ∈ others := by
    simp only [exists_mem_iff, ne_eq, List.eq_nil_iff_forall_not_mem, same.mem_pieces_iff]
  exact {
    root := by simpa only [givenRoot?, same.roots_eq fit] using h.root
    sourceRoot_of_none := by simpa only [sourceRoot] using h.sourceRoot_of_none
    sourceRoot_of_mem := by simpa only [sourceRoot] using h.sourceRoot_of_mem
    strategy_of_none := by simpa only [strategy] using h.strategy_of_none
    strategy_of_mem := by simpa only [strategy] using h.strategy_of_mem
    mem_excludeDirs_iff := by simpa only [same.mem_pieces_iff] using h.mem_excludeDirs_iff
    mem_implicitFiles_iff := by
      simpa only [same.mem_pieces_iff, dropped] using h.mem_implicitFiles_iff
    extensions_of_none := fun none =>
      h.extensions_of_none (not_exists.mp (mt given.mpr (not_exists.mpr none)))
    mem_extensions_iff := by
      simpa only [same.mem_pieces_iff, given] using h.mem_extensions_iff }

end

/-- A project with its sources in a directory. -/
def sourcesProject : FileSystem where
  top := .dir [(Utf8.encode "site".toList, .dir [(Utf8.encode "src".toList, .dir [])])]
  workingDir := [Utf8.encode "site".toList]

/-- Occurrences with two values of one list. -/
def givenTwice : List Occurrence :=
  [.setting .extensions ".vue,ts".toList, .root ".".toList, .setting .excludeDirs " gen".toList,
    .flag .verbose, .setting .excludeDirs "dist, ".toList, .setting .sourceRoot "src".toList]

/-- The same pieces with one value of that list and two of another, in another order. -/
def givenOnce : List Occurrence :=
  [.flag .verbose, .setting .excludeDirs "dist, , gen".toList, .setting .sourceRoot "src".toList,
    .setting .extensions "ts".toList, .root ".".toList, .setting .extensions ".vue".toList]

/-- The two give the same pieces, and the same of all else. -/
theorem regroups_givenOnce : Regroups givenTwice givenOnce where
  mem_pieces_iff setting piece := by
    apply List.Perm.mem_iff
    cases setting <;> decide
  perm := by decide

/-- Values that are attached and values that are not, and a flag by its letter. -/
def argumentsTwice : List Text :=
  [longArgument "ext" ++ '=' :: ".vue,ts".toList, ".".toList, longArgument "exclude-dir",
    " gen".toList, ['-', 'v'], longArgument "exclude-dir" ++ '=' :: "dist, ".toList,
    longArgument "source-root", "src".toList]

/-- The first of them as arguments. -/
theorem areWritten_givenTwice : AreWritten givenTwice argumentsTwice := by
  have extensions : IsWritten (.setting .extensions ".vue,ts".toList)
      [longArgument "ext" ++ '=' :: ".vue,ts".toList] := .attached (by decide)
  have root : IsWritten (.root ".".toList) [".".toList] := .root (by decide)
  have generated : IsWritten (.setting .excludeDirs " gen".toList)
      [longArgument "exclude-dir", " gen".toList] := .detached (by decide) (by decide)
  have verbose : IsWritten (.flag .verbose) [['-', 'v']] := .letter (by decide)
  have built : IsWritten (.setting .excludeDirs "dist, ".toList)
      [longArgument "exclude-dir" ++ '=' :: "dist, ".toList] := .attached (by decide)
  have sourceRoot : IsWritten (.setting .sourceRoot "src".toList)
      [longArgument "source-root", "src".toList] := .detached (by decide) (by decide)
  exact AreWritten.cons extensions (.cons root (.cons generated (.cons verbose (.cons built
    (.cons sourceRoot .nil)))))

/-- The same flag by its name, and no value that is attached. -/
def argumentsOnce : List Text :=
  [longArgument "verbose", longArgument "exclude-dir", "dist, , gen".toList,
    longArgument "source-root", "src".toList, longArgument "ext", "ts".toList, ".".toList,
    longArgument "ext", ".vue".toList]

/-- The second of them as arguments. -/
theorem areWritten_givenOnce : AreWritten givenOnce argumentsOnce := by
  have verbose : IsWritten (.flag .verbose) [longArgument "verbose"] := .name (by decide)
  have excluded : IsWritten (.setting .excludeDirs "dist, , gen".toList)
      [longArgument "exclude-dir", "dist, , gen".toList] := .detached (by decide) (by decide)
  have sourceRoot : IsWritten (.setting .sourceRoot "src".toList)
      [longArgument "source-root", "src".toList] := .detached (by decide) (by decide)
  have script : IsWritten (.setting .extensions "ts".toList)
      [longArgument "ext", "ts".toList] := .detached (by decide) (by decide)
  have root : IsWritten (.root ".".toList) [".".toList] := .root (by decide)
  have component : IsWritten (.setting .extensions ".vue".toList)
      [longArgument "ext", ".vue".toList] := .detached (by decide) (by decide)
  exact AreWritten.cons verbose (.cons excluded (.cons sourceRoot (.cons script (.cons root
    (.cons component .nil)))))

end Config

end Orphans
