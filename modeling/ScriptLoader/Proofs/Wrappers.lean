import ScriptLoader.Proofs.Attribution

/-!
What safe loads add to a run. A host that takes every `require` of its scripts for a `load` runs the
same modules in the same order and leaves the same loader behind; a fault that it reports is what
the other host reports inside the wrappers of the safe loads.

The two hosts are compared on programs: `Program.bare` makes every load of a program an ordinary
one. On its way out of a run a fault meets scripts, which hand it on as they get it, and modules,
which tell it by its root cause from a fault of their own.
-/

namespace ScriptLoader

/-! ### Wrappers -/

namespace Fault

def WellWrapped (fault : Fault) : Prop :=
  fault.rootCause.isLoaderFault = fault.isLoaderFault

variable {fault : Fault}

theorem wellWrapped_of_not_isModuleLoad (h : fault.isModuleLoad = false) : fault.WellWrapped := by
  simp [WellWrapped, h]

@[simp] theorem rootCause_ofRequired (requested caller : String) (fault : Fault) :
    (ofRequired requested caller fault).rootCause = fault.rootCause := by
  unfold ofRequired
  split <;> rfl

theorem WellWrapped.ofRequired (h : fault.WellWrapped) (requested caller : String) :
    (fault.ofRequired requested caller).WellWrapped := by
  unfold Fault.ofRequired
  split
  · rename_i hloader
    exact h.trans hloader
  · exact h

theorem not_isModuleLoad_of_not_isLoaderFault (h : fault.isLoaderFault = false) :
    fault.isModuleLoad = false := by
  cases fault with
  | moduleLoad _ _ _ => cases h
  | _ => rfl

/-- A module hands a fault on, or reports its own, whether the fault is in wrappers or not. -/
theorem WellWrapped.rootCause_ofModule (h : fault.WellWrapped) (path caller : String) :
    (ofModule path caller fault).rootCause = ofModule path caller fault.rootCause := by
  rcases hloader : fault.isLoaderFault with _ | _
  · simp only [rootCause_of_not_isModuleLoad (not_isModuleLoad_of_not_isLoaderFault hloader)]
    apply rootCause_of_not_isModuleLoad
    unfold ofModule
    split
    · exact not_isModuleLoad_of_not_isLoaderFault hloader
    · rfl
  · have hcause : fault.rootCause.isLoaderFault = true := h.trans hloader
    simp only [ofModule, hloader, hcause, Bool.true_or, if_true]

theorem WellWrapped.ofModule (h : fault.WellWrapped) (path caller : String) :
    (fault.ofModule path caller).WellWrapped := by
  unfold Fault.ofModule
  split
  · exact h
  · rfl

end Fault

/-! ### Programs without safe loads -/

namespace Program

variable {σ α β : Type}

def bare : Program σ α → Program σ α
  | done outcome => done outcome
  | load _ requested next => load false requested fun answer => (next answer).bare
  | ask request next => ask request fun answer => (next answer).bare

@[simp] theorem bare_done (outcome : Except Fault α) :
    (done outcome : Program σ α).bare = done outcome := rfl

@[simp] theorem bare_bind (program : Program σ α) (next : α → Program σ β) :
    (program.bind next).bare = program.bare.bind fun a => (next a).bare := by
  induction program with
  | done outcome => cases outcome <;> rfl
  | load safe requested rest ih => simp only [bind, bare, ih]
  | ask request rest ih => simp only [bind, bare, ih]

end Program

/-! ### Two runs -/

namespace Loader

variable {σ α : Type} {executor : Executor σ} {loader middle after : Loader σ} {safe : Bool}
  {requested : String} {fault : Fault}

/-- A request that is refused is not refused with a wrapper. -/
theorem not_isModuleLoad_of_refused
    (verdict : loader.judge requested = (.settled (.error fault), middle)) :
    fault.isModuleLoad = false := by
  cases judged verdict with
  | unresolved target _ =>
      obtain rfl | ⟨-, kind, text, rfl, -⟩ := @notFound_or_impossible σ false requested _ _ target
      · rfl
      · rfl
  | notAFile _ _ _ => rfl
  | notCanonical _ _ _ _ => rfl

theorem rootCause_of_report {reported : Fault}
    (h : loader.report safe requested (.error fault) = .error reported) :
    reported.rootCause = fault.rootCause ∧ (fault.WellWrapped → reported.WellWrapped) := by
  cases safe with
  | false =>
      cases h
      exact ⟨rfl, id⟩
  | true =>
      cases h
      exact ⟨Fault.rootCause_ofRequired _ _ _, fun h => h.ofRequired _ _⟩

/-- The fault of a load ends a program that lets it pass, inside its wrappers or without them. -/
theorem Runs.bare_of_error {executor' : Executor σ}
    {next : Except Fault Script.Value → Program σ α}
    (pass : ∀ fault, next (.error fault) = .done (.error fault)) (wrapped : fault.WellWrapped)
    {outcome : Except Fault α}
    (rest : Runs executor (next (loader.report safe requested (.error fault))) middle outcome
      after) :
    (∀ reported, outcome = .error reported → reported.WellWrapped) ∧
      Runs executor' (next (.error fault.rootCause)).bare middle
        (outcome.mapError Fault.rootCause) after := by
  obtain ⟨reported, hreported⟩ := exists_report_error loader safe requested fault
  obtain ⟨hcause, hwrapped⟩ := rootCause_of_report hreported
  rw [hreported, pass] at rest
  cases rest
  constructor
  · rintro _ ⟨⟩
    exact hwrapped wrapped
  · rw [pass, ← hcause]
    exact .done _ _

/-- Without safe loads a program ends as it does with them, but for the wrappers of its fault, if
the modules and the program let the faults of loads pass and have none of their own in wrappers. -/
theorem Runs.bare {program : Program σ α} {outcome : Except Fault α}
    (runs : Runs executor program loader outcome after)
    (modules : ∀ path, (executor path).Raises (·.isModuleLoad = false))
    (raises : program.Raises (·.isModuleLoad = false)) :
    (∀ fault, outcome = .error fault → fault.WellWrapped) ∧
      Runs (fun path => (executor path).bare) program.bare loader
        (outcome.mapError Fault.rootCause) after := by
  induction runs with
  | done outcome loader =>
      cases outcome with
      | ok a =>
          refine ⟨fun _ h => ?_, .done _ _⟩
          cases h
      | error fault =>
          have hcause : fault.rootCause = fault := Fault.rootCause_of_not_isModuleLoad raises
          constructor
          · rintro _ ⟨⟩
            exact Fault.wellWrapped_of_not_isModuleLoad raises
          · simp only [Except.mapError, hcause]
            exact .done _ _
  | asked _ ih =>
      obtain ⟨wrapped, bare⟩ := ih (raises _)
      exact ⟨wrapped, .asked bare⟩
  | @settled _ safe requested next loader middle _ given _ verdict rest ih =>
      cases given with
      | ok value =>
          rw [report_ok] at ih
          obtain ⟨wrapped, bare⟩ := ih (raises.2 value)
          exact ⟨wrapped, .settled verdict bare⟩
      | error fault =>
          have hfault := not_isModuleLoad_of_refused verdict
          obtain ⟨wrapped, bare⟩ :=
            rest.bare_of_error raises.1 (Fault.wellWrapped_of_not_isModuleLoad hfault)
          rw [Fault.rootCause_of_not_isModuleLoad hfault] at bare
          exact ⟨wrapped, .settled verdict bare⟩
  | @module _ safe requested path next loader entered inner _ given _ verdict body rest ihbody
      ihrest =>
      obtain ⟨wrappedBody, bareBody⟩ := ihbody (modules path)
      cases given with
      | ok value =>
          rw [report_mapError_ok] at ihrest
          obtain ⟨wrapped, bare⟩ := ihrest (raises.2 value)
          exact ⟨wrapped, .module verdict bareBody bare⟩
      | error fault =>
          have hfault := wrappedBody fault rfl
          obtain ⟨wrapped, bare⟩ :=
            rest.bare_of_error raises.1 (hfault.ofModule path entered.caller)
          rw [hfault.rootCause_ofModule] at bare
          exact ⟨wrapped, .module verdict bareBody bare⟩

end Loader

/-! ### Scripts without `require` -/

namespace Script

open Loader

def Call.bare {τ : Type} (request : Call τ) : Call τ := { request with safe := false }

def Expr.bare {ν τ : Type} : Expr ν τ → Expr ν τ
  | .call request => .call request.bare
  | .add left right => .add left.bare right.bare
  | other => other

def Statement.bare {ν τ : Type} : Statement ν τ → Statement ν τ
  | .assign target value line => .assign target value.bare line
  | .print value line => .print value.bare line
  | .return value line => .return value.bare line
  | .fail value line => .fail value.bare line
  | .call request => .call request.bare

/-- The modules as a host runs them that takes every `require` for a `load`. -/
def bareExecutor : Executor Host := fun path =>
  (Program.query (.read path)).bind fun
    | .error error => .fail (.unreadable path error)
    | .ok bytes => (Program.done (ofBytes path bytes)).bind fun script =>
      runStatements script.file (script.statements.map Statement.bare)

@[simp] theorem Expr.line_bare {ν τ : Type} (expr : Expr ν τ) : expr.bare.line = expr.line := by
  induction expr with
  | add left right ihleft _ => exact ihleft
  | _ => rfl

@[simp] theorem Expr.bare_evaluate (file : Option String) (expr : Expr Numeral CodePoints) :
    (expr.evaluate file).bare = expr.bare.evaluate file := by
  induction expr with
  | name identifier line =>
      simp only [evaluate, bare, Program.bare_bind]
      congr 1
      funext host
      cases host.value? identifier <;> rfl
  | call request => rfl
  | add left right ihleft ihright =>
      simp [evaluate, bare, ihleft, ihright]
  | _ => rfl

@[simp] theorem Statement.bare_perform (file : Option String)
    (statement : Statement Numeral CodePoints) :
    (statement.perform file).bare = statement.bare.perform file := by
  cases statement with
  | assign target value line =>
      simp [perform, bare]
      rfl
  | print value line =>
      simp [perform, bare]
      rfl
  | «return» value line => rfl
  | fail value line =>
      simp [perform, bare]
      rfl
  | call request =>
      simp [perform, bare]
      rfl

@[simp] theorem bare_runStatements (file : Option String)
    (statements : List (Statement Numeral CodePoints)) :
    (runStatements file statements).bare =
      runStatements file (statements.map Statement.bare) := by
  induction statements with
  | nil => rfl
  | cons statement rest ih =>
      cases statement with
      | «return» value line => exact value.bare_evaluate file
      | _ =>
          simp [runStatements, Statement.bare, ih]

theorem bare_executor : (fun path => (executor path).bare) = bareExecutor := by
  funext path
  simp only [executor, bareExecutor, Program.bare_bind]
  congr 1
  funext answer
  cases answer with
  | error error => rfl
  | ok bytes =>
      simp [run]

theorem readsFiles_bareExecutor : ReadsFiles bareExecutor := by
  intro path
  refine ⟨_, rfl, fun error => ⟨.unreadable path error, rfl⟩, fun answer => ?_⟩
  cases answer with
  | error error => trivial
  | ok bytes =>
      show ((Program.done (ofBytes path bytes)).bind fun script =>
        runStatements script.file (script.statements.map Statement.bare)).Steady
      exact composable_steady.bind (composable_steady.done _) fun script =>
        composable_steady.runStatements _ _

theorem raises_executor_unwrapped (path : String) :
    (executor path).Raises (·.isModuleLoad = false) :=
  (raises_executor path).mono fun _ h =>
    Fault.not_isModuleLoad_of_not_isLoaderFault h.not_isLoaderFault

/-- Safe loads differ from others in what they report only. From any loader, a load ends under a
host that takes every `require` of its scripts for a `load`, as it does under the host that does
not. The loaders after the two are the same, with the modules begun and their order, the cache, the
stack, the search path, and the names and the output of the host. So is the value, if there is one;
and the fault of the one is what is inside all the wrappers of the fault of the other. -/
theorem bare_load_agrees (loader : Loader Host) (safe : Bool) (requested : String) :
    ∃ outcome after, ∀ depth, depthBound loader.machine ≤ depth →
      callWith (Loader.execute executor depth) safe requested loader = some (outcome, after) ∧
      callWith (Loader.execute bareExecutor depth) false requested loader =
        some (outcome.mapError Fault.rootCause, after) := by
  obtain ⟨outcome, after, runs⟩ := exists_runs_call loader safe requested
  obtain ⟨-, bare⟩ := runs.bare raises_executor_unwrapped (Program.raises_call safe requested)
  rw [bare_executor] at bare
  exact ⟨outcome, after, fun depth hdepth => ⟨callWith_of_runs runs hdepth,
    callWith_of_readsFiles readsFiles_bareExecutor bare hdepth⟩⟩

/-- `/a` defines and prints a name and requires `/b`, which requires a module that does not
exist. -/
def guardedLoader : Loader Host :=
  Loader.start ⟨⟨"/", "", []⟩, .build []
    [(["a"], .ofText "let x = 1 print x require \"b\""), (["b"], .ofText "require \"gone\"")]⟩
    .md5 [] .empty

theorem bare_load_agrees_guardedLoader :
    depthBound guardedLoader.machine ≤ 6 ∧
      ∃ after,
        callWith (Loader.execute executor 6) false "/a" guardedLoader =
          some (.error (.moduleLoad "b"
            (.moduleLoad "gone" (.notFound "gone" (some "/b")) (some "/b")) (some "/a")), after) ∧
        callWith (Loader.execute bareExecutor 6) false "/a" guardedLoader =
          some (.error (.notFound "gone" (some "/b")), after) ∧
        after.host.output = "1\n" ∧ startedPaths after.journal = ["/b", "/a"] := by
  have hbound : depthBound guardedLoader.machine ≤ 6 := by decide +kernel
  have hend : (callWith (Loader.execute executor 6) false "/a" guardedLoader).map
      (fun result => (result.1.map fun _ => (), result.2.host.output,
        startedPaths result.2.journal)) =
      some (.error (.moduleLoad "b"
        (.moduleLoad "gone" (.notFound "gone" (some "/b")) (some "/b")) (some "/a")),
        "1\n", ["/b", "/a"]) := by
    decide +kernel
  obtain ⟨outcome, after, hcalls⟩ := bare_load_agrees guardedLoader false "/a"
  obtain ⟨hcall, hbare⟩ := hcalls 6 hbound
  rw [hcall] at hend
  simp only [Option.map_some, Option.some.injEq, Prod.mk.injEq] at hend
  obtain ⟨houtcome, houtput, hstarted⟩ := hend
  cases outcome with
  | ok value => cases houtcome
  | error fault =>
      cases houtcome
      exact ⟨hbound, after, hcall, hbare, houtput, hstarted⟩

end Script

end ScriptLoader
