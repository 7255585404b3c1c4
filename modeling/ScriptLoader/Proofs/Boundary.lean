import ScriptLoader.Proofs.Attribution

/-!
What can come out of a load. Whatever modules do, short of an interrupt, a load ends with a value or
with a fault of the loader, and a safe load with a value or with one wrapper that names what was
required and who required it. The loader's own checks of its paths and signatures never fail: every
path that a name is resolved to is canonical, and every file has a signature.

The one way past this boundary is a name that asks for the home of an impossible user.
-/

namespace ScriptLoader

theorem Fault.isLoaderFault_ofModule {fault : Fault} (h : fault.isInterrupt = false)
    (path caller : String) : (ofModule path caller fault).isLoaderFault = true := by
  unfold ofModule
  split
  · rename_i hpass
    simpa [h] using hpass
  · rfl

namespace Loader

variable {σ : Type} {executor : Executor σ} {loader middle after : Loader σ}
  {requested path : String} {safe : Bool} {fault : Fault} {outcome : Except Fault Script.Value}

def Uninterrupted (executor : Executor σ) : Prop :=
  ∀ path loader fault after, Runs executor (executor path) loader (.error fault) after →
    fault.isInterrupt = false

/-- A file at a canonical path can be checked against the cache. -/
theorem exists_check (canonical : Path.Canonical path)
    (isFile : loader.machine.isFile path = true) :
    ∃ unchanged cache, loader.cache.check loader.machine path = .ok (unchanged, cache) := by
  obtain ⟨signature, hsignature⟩ :=
    Machine.exists_signature_of_isFile isFile loader.cache.algorithm
  exact ⟨_, _, Cache.check_of_signature canonical hsignature⟩

/-- Why a name cannot even be looked for, with the fault that says so: it asks for the home of an
impossible user, or the search goes on to what is no path. -/
inductive Unsearchable (loader : Loader σ) (requested : String) : Fault → Prop
  | home (impossible : Path.expandHome? loader.machine.toStandpoint requested = none) :
      Unsearchable loader requested (.foreign .badValue "embedded null byte")
  | obstacle (obstructed : loader.obstructed = true) (searched : Path.isAnchored requested = false)
      (nowhere :
        Resolve.directory? loader.machine loader.searchPath.directories requested = none) :
      Unsearchable loader requested
        (.foreign .badType "expected str, bytes or os.PathLike object, not list")

theorem Unsearchable.not_isLoaderFault (h : Unsearchable loader requested fault) :
    fault.isLoaderFault = false := by
  cases h <;> rfl

theorem Unsearchable.target (h : Unsearchable loader requested fault) :
    loader.target requested = .error fault := by
  cases h with
  | home impossible =>
      have anchored := (Path.expandHome?_eq_none impossible).1
      have canonical : Resolve.canonical loader.machine requested =
          .error (.foreign .badValue "embedded null byte") := by
        simp only [Resolve.canonical, Path.canonicalize?, impossible, Option.map_none]
        rfl
      simp [Loader.target, Resolve.resolve, anchored, canonical, Except.mapError, searchFault]
  | obstacle obstructed searched nowhere =>
      simp [Loader.target, Resolve.resolve, searched, nowhere, Except.mapError, searchFault,
        obstructed]

/-- Every other name without a file was not found. -/
theorem notFound_or_unsearchable (target : loader.target requested = .error fault) :
    fault = .notFound requested (some loader.caller) ∨ Unsearchable loader requested fault := by
  obtain hnotFound | ⟨impossible | ⟨obstructed, searched, nowhere⟩, -⟩ :=
    @notFound_or_impossible σ true requested loader fault target
  · exact .inl hnotFound
  · have h := Unsearchable.home impossible
    exact .inr (Except.error.inj (h.target.symm.trans target) ▸ h)
  · have h := Unsearchable.obstacle obstructed searched nowhere
    exact .inr (Except.error.inj (h.target.symm.trans target) ▸ h)

/-- A name that cannot be looked for is refused with the fault that says so. -/
theorem Runs.of_unsearchable (runs : Runs executor (.call safe requested) loader outcome after)
    (h : Unsearchable loader requested fault) : outcome = .error fault := by
  obtain ⟨settled, hsettled⟩ := judge_of_error h.target
  obtain ⟨given, verdict, rfl⟩ | ⟨path, entered, given, inner, verdict, -⟩ := runs.of_call
  · cases hsettled.symm.trans verdict
    cases h <;> cases safe <;> rfl
  · cases hsettled.symm.trans verdict

/-- A name that can be looked for is refused with a fault of the loader. -/
theorem loaderFault_or_unsearchable
    (absolute : Path.isAbsolute loader.machine.workingDirectory = true)
    (verdict : loader.judge requested = (.settled (.error fault), middle)) :
    fault.isLoaderFault = true ∨ Unsearchable loader requested fault := by
  cases judged verdict with
  | unresolved target _ =>
      obtain rfl | unsearchable := notFound_or_unsearchable target
      · exact .inl rfl
      · exact .inr unsearchable
  | notAFile _ _ _ => exact .inl rfl
  | notCanonical target _ canonical _ =>
      exact (canonical (canonical_of_target absolute target)).elim

/-- What a call has to report is a value or a fault of the loader, if its name can be looked for. -/
theorem Runs.value_or_loaderFault_or_unsearchable
    (runs : Runs executor (.call safe requested) loader outcome after)
    (uninterrupted : Uninterrupted executor)
    (absolute : Path.isAbsolute loader.machine.workingDirectory = true) :
    (∃ value, outcome = .ok value) ∨
      (∃ fault, fault.isLoaderFault = true ∧
        outcome = .error (Frame.wrap ⟨safe, requested, loader⟩ fault)) ∨
      ∃ fault, Unsearchable loader requested fault ∧ outcome = .error fault := by
  obtain ⟨given, verdict, houtcome⟩ | ⟨path, entered, given, inner, -, body, houtcome, -⟩ :=
    runs.of_call
  · cases given with
    | ok value => exact .inl ⟨value, houtcome.trans (report_ok value)⟩
    | error fault =>
        obtain hfault | unsearchable := loaderFault_or_unsearchable absolute verdict
        · exact .inr (.inl ⟨fault, hfault, houtcome.trans (report_error hfault)⟩)
        · exact .inr (.inr ⟨fault, unsearchable, runs.of_unsearchable unsearchable⟩)
  · cases given with
    | ok value => exact .inl ⟨value, houtcome.trans (report_mapError_ok _ value)⟩
    | error fault =>
        have hfault := Fault.isLoaderFault_ofModule (uninterrupted _ _ _ _ body) path entered.caller
        exact .inr (.inl ⟨_, hfault, houtcome.trans (report_error hfault)⟩)

theorem Runs.value_or_loaderFault
    (runs : Runs executor (.call safe requested) loader outcome after)
    (uninterrupted : Uninterrupted executor) (strings : loader.obstructed = false)
    (absolute : Path.isAbsolute loader.machine.workingDirectory = true)
    (possible : Path.expandHome? loader.machine.toStandpoint requested ≠ none) :
    (∃ value, outcome = .ok value) ∨
      ∃ fault, fault.isLoaderFault = true ∧
        outcome = .error (Frame.wrap ⟨safe, requested, loader⟩ fault) := by
  obtain hvalue | hfault | ⟨fault, unsearchable, -⟩ :=
    runs.value_or_loaderFault_or_unsearchable uninterrupted absolute
  · exact .inl hvalue
  · exact .inr hfault
  · cases unsearchable with
    | home impossible => exact (possible impossible).elim
    | obstacle obstructed _ _ => cases strings.symm.trans obstructed

/-- From every loader, with texts for directories and an absolute working directory, and with
modules that may do anything and load one another at will:

* a path that a name means is canonical, and if there is a file at it, the check against the cache
  gives an answer;
* unless the name asks for the home of an impossible user, a safe load that ends gives a value or
  the wrapper of a fault of the loader, with the name and with the module that was asking, and a
  load that ends gives a value or a fault of the loader;
* if it does ask for such a home, both give the fault from outside. -/
theorem require_normalizes_failures (uninterrupted : Uninterrupted executor)
    (strings : loader.obstructed = false)
    (absolute : Path.isAbsolute loader.machine.workingDirectory = true) (requested : String) :
    (∀ path, loader.target requested = .ok path → Path.Canonical path ∧
      (loader.machine.isFile path = true →
        ∃ unchanged cache, loader.cache.check loader.machine path = .ok (unchanged, cache))) ∧
    (Path.expandHome? loader.machine.toStandpoint requested ≠ none →
      (∀ outcome after, Runs executor (.call true requested) loader outcome after →
        (∃ value, outcome = .ok value) ∨ ∃ cause, cause.isLoaderFault = true ∧
          outcome = .error (.moduleLoad requested cause (some loader.caller))) ∧
      ∀ outcome after, Runs executor (.call false requested) loader outcome after →
        (∃ value, outcome = .ok value) ∨
          ∃ fault, fault.isLoaderFault = true ∧ outcome = .error fault) ∧
    (Path.expandHome? loader.machine.toStandpoint requested = none →
      ∀ safe outcome after, Runs executor (.call safe requested) loader outcome after →
        outcome = .error (.foreign .badValue "embedded null byte")) := by
  refine ⟨fun path target => ?_, fun possible => ⟨fun outcome after runs => ?_,
    fun outcome after runs => ?_⟩, fun impossible safe outcome after runs => ?_⟩
  · have canonical := canonical_of_target absolute target
    exact ⟨canonical, exists_check canonical⟩
  · exact runs.value_or_loaderFault uninterrupted strings absolute possible
  · exact runs.value_or_loaderFault uninterrupted strings absolute possible
  · exact runs.of_unsearchable (.home impossible)

/-- A module that loads `b`, takes no notice of what comes of it, resets the loader and fails. -/
def unruly : Executor Unit := fun _ =>
  .load true "b" fun _ => .ask .reset fun _ => .done (.error (.internal "out of order"))

theorem uninterrupted_unruly : Uninterrupted unruly := by
  intro path loader fault after runs
  cases runs with
  | settled _ rest | module _ _ rest =>
      cases rest with
      | asked rest =>
          cases rest
          rfl

def unrulyLoader : Loader Unit :=
  start ⟨⟨"/w/", "h", []⟩, .build [] [(["a", "w"], .ofText ""), (["b", "p", "w"], .ofText "")]⟩ .md5
    ["", "p"] ()

theorem require_normalizes_failures_unruly :
    Uninterrupted unruly ∧ unrulyLoader.obstructed = false ∧
      Path.isAbsolute unrulyLoader.machine.workingDirectory = true ∧
      Path.expandHome? unrulyLoader.machine.toStandpoint "a" ≠ none ∧
      ∃ cause after, cause.isLoaderFault = true ∧
        Runs unruly (.call true "a") unrulyLoader (.error (.moduleLoad "a" cause (some "")))
          after := by
  have hfails : (callWith (execute unruly 3) true "a" unrulyLoader).map
      (fun result => result.1.toBool) = some false := by
    decide +kernel
  obtain ⟨⟨outcome, after⟩, hcall, hfalse⟩ := Option.map_eq_some_iff.mp hfails
  have runs := runs_of_call hcall
  have possible : Path.expandHome? unrulyLoader.machine.toStandpoint "a" ≠ none := by decide
  obtain ⟨-, hends, -⟩ :=
    @require_normalizes_failures Unit unruly unrulyLoader uninterrupted_unruly rfl (by decide) "a"
  obtain ⟨value, rfl⟩ | ⟨cause, hcause, rfl⟩ := (hends possible).1 outcome after runs
  · cases hfalse
  · exact ⟨uninterrupted_unruly, rfl, by decide, possible, cause, after, hcause, runs⟩

/-- So there is a fault that a safe load does not wrap. -/
theorem impossible_user_passes_boundary :
    ¬∀ (executor : Executor Unit) (loader : Loader Unit) (requested : String)
      (outcome : Except Fault Script.Value) (after : Loader Unit), Uninterrupted executor →
      loader.obstructed = false → Path.isAbsolute loader.machine.workingDirectory = true →
      Runs executor (.call true requested) loader outcome after →
      (∃ value, outcome = .ok value) ∨
        ∃ cause, outcome = .error (.moduleLoad requested cause (some loader.caller)) := by
  intro h
  have hends : (callWith (execute unruly 1) true "~z\x00" unrulyLoader).isSome = true := by
    decide +kernel
  obtain ⟨⟨outcome, after⟩, hcall⟩ := Option.isSome_iff_exists.mp hends
  have runs := runs_of_call hcall
  have houtcome := runs.of_unsearchable (.home (by decide))
  subst houtcome
  obtain ⟨value, hvalue⟩ | ⟨cause, hcause⟩ :=
    h unruly unrulyLoader "~z\x00" _ after uninterrupted_unruly rfl (by decide) runs
  · cases hvalue
  · cases hcause

end Loader

end ScriptLoader
