import ScriptLoader.Proofs.Faults
import ScriptLoader.Proofs.Injection
import ScriptLoader.Proofs.Termination

/-!
Which fault a failed call reports. Scripts cannot hold a fault back, so the first fault of a run
ends it, and on its way out it passes all calls that are active. What is reported is one root fault,
which stands for the innermost of these calls, in one wrapper for each safe call among them.

There is one exception. A name that cannot even be looked for, such as the home of a user whose name
has a NUL character, gives a fault that is none of the loader's. The call that asks for it does not
wrap it, and the module that makes this call reports it as if it were its own.
-/

namespace ScriptLoader

namespace Loader

variable {σ α β : Type} {executor : Executor σ}

structure Frame (σ : Type) where
  safe : Bool
  requested : String
  before : Loader σ

namespace Frame

def caller (call : Frame σ) : String := call.before.caller

def target (call : Frame σ) : Except Fault String := call.before.target call.requested

/-- Nothing can be looked for under the name: it asks for the home of an impossible user, or the
search goes on to what is no path. -/
def Impossible (call : Frame σ) : Prop :=
  Path.expandHome? call.before.machine.toStandpoint call.requested = none ∨
    (call.before.obstructed = true ∧ Path.isAnchored call.requested = false ∧
      Resolve.directory? call.before.machine call.before.searchPath.directories call.requested =
        none)

def wrap (call : Frame σ) (fault : Fault) : Fault :=
  if call.safe then .moduleLoad call.requested fault (some call.caller) else fault

def wrapAll (calls : List (Frame σ)) (root : Fault) : Fault :=
  calls.foldr wrap root

@[simp] theorem wrapAll_nil (root : Fault) : wrapAll ([] : List (Frame σ)) root = root := rfl

@[simp] theorem wrapAll_cons (call : Frame σ) (calls : List (Frame σ)) (root : Fault) :
    wrapAll (call :: calls) root = call.wrap (wrapAll calls root) := rfl

@[simp] theorem isLoaderFault_wrapAll {root : Fault} (h : root.isLoaderFault = true)
    (calls : List (Frame σ)) : (wrapAll calls root).isLoaderFault = true := by
  induction calls with
  | nil => exact h
  | cons call rest ih =>
      rw [wrapAll_cons, wrap]
      split
      · rfl
      · exact ih

@[simp] theorem rootCause_wrapAll {root : Fault} (h : root.isModuleLoad = false)
    (calls : List (Frame σ)) : (wrapAll calls root).rootCause = root := by
  induction calls with
  | nil => exact Fault.rootCause_of_not_isModuleLoad h
  | cons call rest ih =>
      rw [wrapAll_cons, wrap]
      split
      · exact ih
      · exact ih

/-- A wrapper's message ends with the message of what it wraps. -/
theorem message_wrapAll (calls : List (Frame σ)) (root : Fault) :
    ∃ front, (wrapAll calls root).message = front ++ root.message := by
  induction calls with
  | nil => exact ⟨"", by simp⟩
  | cons call rest ih =>
      obtain ⟨front, hfront⟩ := ih
      rw [wrapAll_cons, wrap]
      split
      · rw [Fault.message, Report.message_moduleLoadFailed, hfront, ← String.append_assoc]
        exact ⟨_, rfl⟩
      · exact ⟨front, hfront⟩

end Frame

def Linked (caller : String) : List (Frame σ) → Prop
  | [] => True
  | call :: rest =>
    call.caller = caller ∧ (rest = [] ∨ ∃ path, call.target = .ok path ∧ Linked path rest)

/-- Where a fault comes from: a call came to nothing before a module was run, or what the innermost
call runs has raised it. -/
inductive Origin where
  | refused
  | raised (fault : Fault)

/-- The first fault of a run arises while some calls are active, the outermost one first. Until then
all calls that have ended gave values. -/
inductive FirstFault (executor : Executor σ) :
    {α : Type} → Program σ α → Loader σ → List (Frame σ) → Origin → Prop
  | raised {α : Type} (fault : Fault) (loader : Loader σ) :
      FirstFault executor (.done (.error fault) : Program σ α) loader [] (.raised fault)
  | asked {α : Type} {request : Request σ} {next : request.Answer → Program σ α}
      {loader : Loader σ} {calls : List (Frame σ)} {origin : Origin}
      (rest : FirstFault executor (next (loader.answer request).1) (loader.answer request).2
        calls origin) :
      FirstFault executor (.ask request next) loader calls origin
  | refused {α : Type} {safe : Bool} {requested : String}
      {next : Except Fault Script.Value → Program σ α} {loader middle : Loader σ} {fault : Fault}
      (verdict : loader.judge requested = (.settled (.error fault), middle)) :
      FirstFault executor (.load safe requested next) loader [⟨safe, requested, loader⟩] .refused
  | settled {α : Type} {safe : Bool} {requested : String}
      {next : Except Fault Script.Value → Program σ α} {loader middle : Loader σ}
      {value : Script.Value} {calls : List (Frame σ)} {origin : Origin}
      (verdict : loader.judge requested = (.settled (.ok value), middle))
      (rest : FirstFault executor (next (.ok value)) middle calls origin) :
      FirstFault executor (.load safe requested next) loader calls origin
  | inside {α : Type} {safe : Bool} {requested path : String}
      {next : Except Fault Script.Value → Program σ α} {loader entered : Loader σ}
      {calls : List (Frame σ)} {origin : Origin}
      (verdict : loader.judge requested = (.due path, entered))
      (body : FirstFault executor (executor path) (entered.enter path) calls origin) :
      FirstFault executor (.load safe requested next) loader
        (⟨safe, requested, loader⟩ :: calls) origin
  | returned {α : Type} {safe : Bool} {requested path : String}
      {next : Except Fault Script.Value → Program σ α} {loader entered inner : Loader σ}
      {value : Script.Value} {calls : List (Frame σ)} {origin : Origin}
      (verdict : loader.judge requested = (.due path, entered))
      (body : Runs executor (executor path) (entered.enter path) (.ok value) inner)
      (rest : FirstFault executor (next (.ok value)) (inner.leave entered.searchPath)
        calls origin) :
      FirstFault executor (.load safe requested next) loader calls origin

/-- The fault that stands for a call: its name was not found, it means no file, or the module that
it runs has raised a fault of its own. -/
inductive Root (call : Frame σ) : Origin → Fault → Prop
  | notFound (target : call.target = .error (.notFound call.requested (some call.caller))) :
      Root call .refused (.notFound call.requested (some call.caller))
  | notAFile {path : String} (target : call.target = .ok path)
      (isFile : call.before.machine.isFile path = false) :
      Root call .refused (.notAFile path)
  | execution {path : String} {fault : Fault} (target : call.target = .ok path)
      (own : fault.OfScript (some path)) :
      Root call (.raised fault) (.execution path fault (some call.caller))

theorem Root.isLoaderFault {call : Frame σ} {origin : Origin} {root : Fault}
    (h : Root call origin root) : root.isLoaderFault = true := by
  cases h <;> rfl

theorem Root.not_isModuleLoad {call : Frame σ} {origin : Origin} {root : Fault}
    (h : Root call origin root) : root.isModuleLoad = false := by
  cases h <;> rfl

inductive Blames (own : Fault → Prop) : List (Frame σ) → Origin → Fault → Prop
  | here {fault : Fault} (h : own fault) : Blames own [] (.raised fault) fault
  | impossible {last : Frame σ} {kind : Foreign} {text : String} (h : last.Impossible)
      (hkind : kind ≠ .interrupt) : Blames own [last] .refused (.foreign kind text)
  | misplaced {outer : List (Frame σ)} {asker last : Frame σ} {path : String} {kind : Foreign}
      {text : String} (h : last.Impossible) (target : asker.target = .ok path) :
      Blames own ((outer ++ [asker]) ++ [last]) .refused
        (Frame.wrapAll (outer ++ [asker])
          (.execution path (.foreign kind text) (some asker.caller)))
  | root {outer : List (Frame σ)} {last : Frame σ} {origin : Origin} {root : Fault}
      (h : Root last origin root) :
      Blames own (outer ++ [last]) origin (Frame.wrapAll (outer ++ [last]) root)

/-! ### One call -/

section Call

variable {safe : Bool} {requested path : String} {loader entered middle : Loader σ}

theorem caller_eq {before after : Loader σ} (h : after.stack = before.stack) :
    after.caller = before.caller := by
  rw [caller, caller, h]

theorem caller_of_judge {verdict : Verdict} (h : loader.judge requested = (verdict, middle)) :
    middle.caller = loader.caller :=
  caller_eq (samePaths_judge h).stack

/-- A fault of the loader is wrapped by the call that it ends. -/
theorem report_error {fault : Fault} (h : fault.isLoaderFault = true) :
    loader.report safe requested (.error fault) =
      .error (Frame.wrap ⟨safe, requested, loader⟩ fault) := by
  cases safe with
  | false => rfl
  | true =>
      show Except.error (Fault.ofRequired requested loader.caller fault) = _
      rw [Fault.ofRequired, if_pos h]
      rfl

/-- A program that lets the fault of a load pass ends with what the load reports. -/
theorem Runs.of_report_error {next : Except Fault Script.Value → Program σ α}
    (pass : ∀ fault, next (.error fault) = .done (.error fault)) {fault : Fault}
    {after : Loader σ} {outcome : Except Fault α}
    (rest : Runs executor (next (loader.report safe requested (.error fault))) middle outcome
      after) :
    ∃ reported, loader.report safe requested (.error fault) = .error reported ∧
      outcome = .error reported := by
  obtain ⟨reported, hreported⟩ := exists_report_error loader safe requested fault
  rw [hreported, pass] at rest
  cases rest
  exact ⟨reported, hreported, rfl⟩

/-- A name that means nothing was not found, or could not even be looked for; then the fault comes
from outside. -/
theorem notFound_or_impossible {fault : Fault} (target : loader.target requested = .error fault) :
    fault = .notFound requested (some loader.caller) ∨
      (Frame.Impossible ⟨safe, requested, loader⟩ ∧
        ∃ kind text, fault = .foreign kind text ∧ kind ≠ .interrupt) := by
  have hcanonical {name : String} {error : Fault}
      (h : Resolve.canonical loader.machine name = .error error) :
      Path.expandHome? loader.machine.toStandpoint name = none ∧
        error = .foreign .badValue (AccessError.nulCharacter.message name) := by
    refine ⟨?_, Resolve.canonical_error h⟩
    unfold Resolve.canonical at h
    split at h
    · cases h
    · rename_i hnone
      exact Option.map_eq_none_iff.mp hnone
  unfold Loader.target Resolve.resolve at target
  by_cases anchored : Path.isAnchored requested = true
  · have hsame (error : Fault) : loader.searchFault requested error = error := by
      simp [searchFault, anchored]
    rw [if_pos anchored] at target
    split at target
    · rename_i error herror
      obtain ⟨hexpand, rfl⟩ := hcanonical herror
      cases target
      exact .inr ⟨.inl hexpand, .badValue, _, hsame _, by decide⟩
    · split at target
      · cases target
      · cases target
        exact .inl (hsame _)
  · rw [Bool.not_eq_true] at anchored
    rw [anchored, if_neg Bool.false_ne_true] at target
    split at target
    · -- the path of a file has no NUL character, so its canonical form is there
      rename_i directory hfound
      have hfile := List.find?_some hfound
      rcases hpath : Resolve.canonical loader.machine (Resolve.candidate directory requested)
        with error | path
      · have hnul := (Path.expandHome?_eq_none (hcanonical hpath).1).2
        exact (Machine.nul_not_mem_of_isFile hfile hnul).elim
      · rw [hpath] at target
        cases target
    · rename_i hnone
      cases target
      rcases hobstructed : loader.obstructed with _ | _
      · refine .inl ?_
        simp [searchFault, hobstructed]
      · have hobstacle (error : Fault) : loader.searchFault requested error =
            .foreign .badType "expected str, bytes or os.PathLike object, not list" := by
          simp [searchFault, hobstructed, anchored]
        exact .inr ⟨.inr ⟨hobstructed, anchored, hnone⟩, .badType, _, hobstacle _, by decide⟩

/-- A call that comes to nothing has a root fault of its own, or its name is impossible. -/
theorem root_of_refused {fault : Fault}
    (absolute : Path.isAbsolute loader.machine.workingDirectory = true)
    (verdict : loader.judge requested = (.settled (.error fault), middle)) :
    Root ⟨safe, requested, loader⟩ .refused fault ∨
      (Frame.Impossible ⟨safe, requested, loader⟩ ∧
        ∃ kind text, fault = .foreign kind text ∧ kind ≠ .interrupt) := by
  cases judged verdict with
  | unresolved target _ =>
      rcases notFound_or_impossible target with rfl | himpossible
      · exact .inl (.notFound target)
      · exact .inr himpossible
  | notAFile target isFile _ => exact .inl (.notAFile target isFile)
  | notCanonical target _ canonical _ =>
      exact (canonical (canonical_of_target absolute target)).elim

/-- A module lets a fault of the loader pass. -/
theorem ofModule_wrapAll {root : Fault} (h : root.isLoaderFault = true) {caller : String}
    {calls : List (Frame σ)} :
    Fault.ofModule path caller (Frame.wrapAll calls root) = Frame.wrapAll calls root := by
  simp [Fault.ofModule, h]

/-- What a call reports of the fault of the module that it runs. -/
theorem Blames.around {own : Fault → Prop} {calls : List (Frame σ)} {origin : Origin}
    {fault reported : Fault} (h : Blames (Fault.OfScript (some path)) calls origin fault)
    (target : loader.target requested = .ok path)
    (report : loader.report safe requested (.error (Fault.ofModule path loader.caller fault)) =
      .error reported) :
    Blames own (⟨safe, requested, loader⟩ :: calls) origin reported := by
  cases h with
  | here hown =>
      -- the module's own fault becomes the root fault of the call
      have hmodule : Fault.ofModule path loader.caller fault =
          .execution path fault (some loader.caller) := by
        simp [Fault.ofModule, hown.not_isLoaderFault, hown.not_isInterrupt]
      rw [hmodule, report_error rfl] at report
      cases report
      exact @Blames.root σ own [] _ _ _ (.execution target hown)
  | @impossible last kind text himpossible hkind =>
      have hmodule : Fault.ofModule path loader.caller (.foreign kind text) =
          .execution path (.foreign kind text) (some loader.caller) := by
        cases kind <;> first | rfl | exact (hkind rfl).elim
      rw [hmodule, report_error rfl] at report
      cases report
      exact @Blames.misplaced σ own [] _ _ _ kind text himpossible target
  | @misplaced outer asker last module kind text himpossible htarget =>
      rw [ofModule_wrapAll rfl, report_error (Frame.isLoaderFault_wrapAll rfl _)] at report
      cases report
      rw [← Frame.wrapAll_cons]
      exact @Blames.misplaced σ own (_ :: outer) _ _ _ kind text himpossible htarget
  | @root outer last _ root hroot =>
      rw [ofModule_wrapAll hroot.isLoaderFault,
        report_error (Frame.isLoaderFault_wrapAll hroot.isLoaderFault _)] at report
      cases report
      rw [← Frame.wrapAll_cons]
      exact @Blames.root σ own (_ :: outer) _ _ _ hroot

end Call

/-! ### Whole runs -/

theorem Linked.of_caller {caller caller' : String} {calls : List (Frame σ)}
    (h : Linked caller calls) (heq : caller = caller') : Linked caller' calls := heq ▸ h

/-- A run that ends with a fault has a first fault, and reports it. -/
theorem Runs.blames {program : Program σ α} {loader after : Loader σ} {outcome : Except Fault α}
    (runs : Runs executor program loader outcome after) (files : ReadsFiles executor)
    (raises : ∀ path, (executor path).Raises (Fault.OfScript (some path)))
    (steady : program.Steady) {own : Fault → Prop} (hown : program.Raises own)
    (absolute : Path.isAbsolute loader.machine.workingDirectory = true) {fault : Fault}
    (failed : outcome = .error fault) :
    ∃ calls origin, FirstFault executor program loader calls origin ∧
      Linked loader.caller calls ∧ Blames own calls origin fault := by
  induction runs generalizing own fault with
  | done outcome loader =>
      subst failed
      exact ⟨[], .raised fault, .raised fault loader, trivial, .here hown⟩
  | @asked _ request _ loader _ _ _ ih =>
      obtain ⟨advances, hstack⟩ := passes_answer loader request steady.1
      obtain ⟨calls, origin, first, linked, blames⟩ :=
        ih (steady.2 _) (hown _) (by rwa [advances.machine]) failed
      exact ⟨calls, origin, .asked first, linked.of_caller (caller_eq hstack), blames⟩
  | @settled _ safe requested next loader middle _ given _ verdict rest ih =>
      cases given with
      | error error =>
          obtain ⟨reported, hreported, houtcome⟩ := rest.of_report_error hown.1
          cases houtcome.symm.trans failed
          refine ⟨[⟨safe, requested, loader⟩], .refused, .refused verdict, ⟨rfl, .inl rfl⟩, ?_⟩
          rcases root_of_refused absolute verdict with hroot | ⟨himpossible, kind, text, rfl, hkind⟩
          · rw [report_error hroot.isLoaderFault] at hreported
            cases hreported
            exact @Blames.root σ own [] _ _ _ hroot
          · -- a safe call wraps no fault from outside
            have hsame : loader.report safe requested (.error (.foreign kind text)) =
                (.error (.foreign kind text) : Except Fault Script.Value) := by
              cases safe <;> rfl
            cases hsame.symm.trans hreported
            exact .impossible himpossible hkind
      | ok value =>
          rw [report_ok] at rest ih
          have advances := (passes_settled verdict).1
          obtain ⟨calls, origin, first, linked, blames⟩ :=
            ih (steady.2 _) (hown.2 _) (by rwa [advances.machine]) failed
          exact ⟨calls, origin, .settled verdict first, linked.of_caller (caller_of_judge verdict),
            blames⟩
  | @module _ safe requested path next loader entered inner _ given _ verdict body rest ihbody
      ihrest =>
      have target := target_of_due verdict
      cases given with
      | error error =>
          have advances := advances_enter verdict
          obtain ⟨calls, origin, first, linked, blames⟩ :=
            ihbody (files.steady path) (raises path) (by rwa [advances.machine]) rfl
          obtain ⟨reported, hreported, houtcome⟩ := rest.of_report_error hown.1
          cases houtcome.symm.trans failed
          rw [caller_of_judge verdict] at hreported
          exact ⟨⟨safe, requested, loader⟩ :: calls, origin, .inside verdict first,
            ⟨rfl, .inr ⟨path, target, linked⟩⟩, blames.around target hreported⟩
      | ok value =>
          rw [report_mapError_ok] at rest ihrest
          obtain ⟨advances, hstack⟩ :=
            passes_module verdict (body.passes files (files.steady path))
          obtain ⟨calls, origin, first, linked, blames⟩ :=
            ihrest (steady.2 _) (hown.2 _) (by rwa [advances.machine]) failed
          exact ⟨calls, origin, .returned verdict body first, linked.of_caller (caller_eq hstack),
            blames⟩

/-- A run with a first fault does not give a value. -/
theorem FirstFault.fails {program : Program σ α} {loader after : Loader σ}
    {outcome : Except Fault α} {calls : List (Frame σ)} {origin : Origin}
    (first : FirstFault executor program loader calls origin)
    (raises : ∀ path, (executor path).Raises (Fault.OfScript (some path)))
    {own : Fault → Prop} (hown : program.Raises own)
    (runs : Runs executor program loader outcome after) : ∃ fault, outcome = .error fault := by
  induction first generalizing own after with
  | raised fault loader =>
      cases runs
      exact ⟨fault, rfl⟩
  | asked _ ih =>
      cases runs with
      | asked rest => exact ih (hown _) rest
  | refused verdict =>
      cases runs with
      | settled verdict' rest =>
          cases verdict.symm.trans verdict'
          obtain ⟨reported, -, houtcome⟩ := rest.of_report_error hown.1
          exact ⟨reported, houtcome⟩
      | module verdict' _ _ => cases verdict.symm.trans verdict'
  | settled verdict _ ih =>
      cases runs with
      | settled verdict' rest =>
          cases verdict.symm.trans verdict'
          rw [report_ok] at rest
          exact ih (hown.2 _) rest
      | module verdict' _ _ => cases verdict.symm.trans verdict'
  | inside verdict _ ih =>
      cases runs with
      | settled verdict' _ => cases verdict.symm.trans verdict'
      | module verdict' body rest =>
          cases verdict.symm.trans verdict'
          obtain ⟨error, rfl⟩ := ih (raises _) body
          obtain ⟨reported, -, houtcome⟩ := rest.of_report_error hown.1
          exact ⟨reported, houtcome⟩
  | returned verdict body _ ih =>
      cases runs with
      | settled verdict' _ => cases verdict.symm.trans verdict'
      | module verdict' body' rest =>
          cases verdict.symm.trans verdict'
          obtain ⟨rfl, rfl⟩ := body.unique body'
          rw [report_mapError_ok] at rest
          exact ih (hown.2 _) rest

/-- The outermost call that is active when a call fails is this call itself. -/
theorem FirstFault.head?_of_call {safe : Bool} {requested : String} {loader : Loader σ}
    {calls : List (Frame σ)} {origin : Origin}
    (first : FirstFault executor (.call safe requested) loader calls origin) :
    calls.head? = some ⟨safe, requested, loader⟩ := by
  cases first with
  | refused _ => rfl
  | inside _ _ => rfl
  | settled _ rest => cases rest
  | returned _ _ rest => cases rest

/-- There is only one first fault. -/
theorem FirstFault.unique {program : Program σ α} {loader : Loader σ}
    {calls calls' : List (Frame σ)} {origin origin' : Origin}
    (first : FirstFault executor program loader calls origin)
    (raises : ∀ path, (executor path).Raises (Fault.OfScript (some path)))
    (first' : FirstFault executor program loader calls' origin') :
    calls' = calls ∧ origin' = origin := by
  induction first generalizing calls' origin' with
  | raised fault loader =>
      cases first'
      exact ⟨rfl, rfl⟩
  | asked _ ih =>
      cases first' with
      | asked rest => exact ih rest
  | refused verdict =>
      cases first' with
      | refused _ => exact ⟨rfl, rfl⟩
      | settled verdict' _ | inside verdict' _ | returned verdict' _ _ =>
          cases verdict.symm.trans verdict'
  | settled verdict _ ih =>
      cases first' with
      | settled verdict' rest =>
          cases verdict.symm.trans verdict'
          exact ih rest
      | refused verdict' | inside verdict' _ | returned verdict' _ _ =>
          cases verdict.symm.trans verdict'
  | @inside _ _ _ path _ _ _ _ _ verdict first ih =>
      cases first' with
      | inside verdict' rest =>
          cases verdict.symm.trans verdict'
          obtain ⟨rfl, rfl⟩ := ih rest
          exact ⟨rfl, rfl⟩
      | returned verdict' body _ =>
          cases verdict.symm.trans verdict'
          obtain ⟨fault, hfault⟩ := first.fails raises (raises path) body
          cases hfault
      | refused verdict' | settled verdict' _ => cases verdict.symm.trans verdict'
  | @returned _ _ _ path _ _ _ _ _ _ _ verdict body _ ih =>
      cases first' with
      | returned verdict' body' rest =>
          cases verdict.symm.trans verdict'
          obtain ⟨hvalue, rfl⟩ := body.unique body'
          cases hvalue
          exact ih rest
      | inside verdict' first' =>
          cases verdict.symm.trans verdict'
          obtain ⟨fault, hfault⟩ := first'.fails raises (raises path) body
          cases hfault
      | refused verdict' | settled verdict' _ => cases verdict.symm.trans verdict'

end Loader

namespace Script

open Loader

/-- A load or a safe load of scripts that fails, from any loader: there is exactly one first fault,
with the calls that were active at it, each made by the module that the call before it runs.

Unless the name of the innermost call is impossible, what is reported is the root fault of this
call, in one wrapper for each safe call and none for the others, the outermost first. A root fault
that tells of the execution of a module holds a fault that is none of the loader's, and one of a
script names the file of that very module. The root fault is the root cause of the whole, and its
message ends the message of every wrapper.

If the name is impossible, the fault comes from outside. It is reported as it is if the call is the
only one, and else as a fault of the module that makes the call. -/
theorem failure_attributed {loader after : Loader Host}
    (absolute : Path.isAbsolute loader.machine.workingDirectory = true) {depth : Nat} {safe : Bool}
    {requested : String} {fault : Fault}
    (call : callWith (Loader.execute executor depth) safe requested loader =
      some (.error fault, after)) :
    ∃ outer last origin,
      FirstFault executor (.call safe requested) loader (outer ++ [last]) origin ∧
      (∀ calls origin', FirstFault executor (.call safe requested) loader calls origin' →
        calls = outer ++ [last] ∧ origin' = origin) ∧
      (outer ++ [last]).head? = some ⟨safe, requested, loader⟩ ∧
      Linked loader.caller (outer ++ [last]) ∧
      ((∃ root, Root last origin root ∧ fault = Frame.wrapAll (outer ++ [last]) root ∧
          fault.rootCause = root ∧
          ∀ outside inside, outer ++ [last] = outside ++ inside →
            ∃ front, (Frame.wrapAll inside root).message = front ++ root.message) ∨
        (last.Impossible ∧ ∃ kind text, (outer = [] ∧ fault = .foreign kind text) ∨
          ∃ path asker, outer.getLast? = some asker ∧ asker.target = .ok path ∧
            fault =
              Frame.wrapAll outer (.execution path (.foreign kind text) (some asker.caller)))) := by
  have hcalls : (Program.call safe requested : Program Host Value).Raises fun _ => False :=
    Program.raises_call safe requested
  obtain ⟨calls, origin, first, linked, blames⟩ := (runs_of_call call).blames readsFiles_executor
    raises_executor (Program.steady_call safe requested) hcalls absolute rfl
  have hhead := first.head?_of_call
  cases blames with
  | here h => exact h.elim
  | @impossible last kind text himpossible _ =>
      refine ⟨[], last, .refused, first, fun _ _ => first.unique raises_executor, ?_, linked,
        .inr ⟨himpossible, kind, text, .inl ⟨rfl, rfl⟩⟩⟩
      simpa using hhead
  | @misplaced outer asker last path kind text himpossible htarget =>
      refine ⟨outer ++ [asker], last, .refused, first, fun _ _ => first.unique raises_executor, ?_,
        linked, .inr ⟨himpossible, kind, text, .inr ⟨path, asker, ?_, htarget, rfl⟩⟩⟩
      · simpa using hhead
      · exact List.getLast?_concat
  | @root outer last _ root hroot =>
      have hcause := Frame.rootCause_wrapAll hroot.not_isModuleLoad (outer ++ [last])
      refine ⟨outer, last, origin, first, fun _ _ => first.unique raises_executor, ?_, linked,
        .inl ⟨root, hroot, rfl, hcause, fun _ inside _ => Frame.message_wrapAll inside root⟩⟩
      simpa using hhead

/-- `/a` loads `/b`, which requires a module that does not exist. -/
def failingLoader : Loader Host :=
  Loader.start ⟨⟨"/", "", []⟩, .build []
    [(["a"], .ofText "load \"b\""), (["b"], .ofText "require \"gone\"")]⟩ .md5 [] .empty

/-- Both safe calls wrap the root fault, and the load between them does not. -/
theorem failure_attributed_failingLoader :
    Path.isAbsolute failingLoader.machine.workingDirectory = true ∧
      ∃ fault after, callWith (Loader.execute executor 3) true "/a" failingLoader =
          some (.error fault, after) ∧
        fault = .moduleLoad "/a"
          (.moduleLoad "gone" (.notFound "gone" (some "/b")) (some "/b")) (some "") ∧
        ∃ outer last origin root,
          FirstFault executor (.call true "/a") failingLoader (outer ++ [last]) origin ∧
          Root last origin root ∧ fault = Frame.wrapAll (outer ++ [last]) root ∧
          root = .notFound "gone" (some "/b") := by
  have hfault : (callWith (Loader.execute executor 3) true "/a" failingLoader).map
      (fun result => match result.1 with | .ok _ => none | .error fault => some fault) =
        some (some (.moduleLoad "/a"
          (.moduleLoad "gone" (.notFound "gone" (some "/b")) (some "/b")) (some ""))) := by
    decide +kernel
  obtain ⟨⟨outcome, after⟩, hcall, houtcome⟩ := Option.map_eq_some_iff.mp hfault
  rcases outcome with fault | value
  · cases houtcome
    obtain ⟨outer, last, origin, first, -, -, -, ⟨root, hroot, hwrap, hcause, -⟩ | hother⟩ :=
      failure_attributed (by decide) hcall
    · exact ⟨by decide, _, after, hcall, rfl, outer, last, origin, root, first, hroot, hwrap,
        hcause.symm⟩
    · -- the root cause of such a fault would be the execution of a module
      obtain ⟨-, kind, text, ⟨-, hforeign⟩ | ⟨path, asker, -, -, hmisplaced⟩⟩ := hother
      · cases hforeign
      · have hcause := congrArg Fault.rootCause hmisplaced
        rw [Frame.rootCause_wrapAll rfl] at hcause
        cases hcause
  · cases houtcome

/-- A required name that is impossible is not reported by a wrapper, nor by any fault of the
loader. -/
theorem impossible_name_not_wrapped :
    (callWith (Loader.execute executor 2) true "~\x00" failingLoader).map
      (fun result => match result.1 with | .ok _ => none | .error fault => some fault) =
        some (some (.foreign .badValue "embedded null byte")) := by
  decide +kernel

end Script

end ScriptLoader
