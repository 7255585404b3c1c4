import ScriptLoader.CommandLine.Execution
import ScriptLoader.Proofs.CommandLines
import ScriptLoader.Proofs.Skips

/-!
A script that is run several times is run once. A call that ends well leaves its module up to date:
the name means what it meant, and the record of the module has the signature of its file. So every
later call finds it so and does nothing but say that it was skipped. A run that fails, fails the
first time.
-/

namespace ScriptLoader

namespace Loader

variable {σ α β : Type} {executor : Executor σ} {safe : Bool} {requested : String}

/-- One program behind another, in a bounded run. -/
theorem run_bind (depth : Nat) (program : Program σ α) (next : α → Program σ β)
    (loader : Loader σ) :
    loader.run executor depth (program.bind next) =
      match loader.run executor depth program with
      | none => none
      | some (.error fault, middle) => some (.error fault, middle)
      | some (.ok a, middle) => middle.run executor depth (next a) := by
  induction program generalizing loader with
  | done outcome => cases outcome <;> rfl
  | ask request rest ih => exact ih _ _
  | load safe requested rest ih =>
      simp only [Program.bind, run, runWith]
      rcases callWith (execute executor depth) safe requested loader with _ | ⟨answer, middle⟩
      · rfl
      · exact ih answer middle

def UpToDate (loader : Loader σ) (requested : String) : Prop :=
  ∃ path, loader.target requested = .ok path ∧ loader.machine.isFile path = true ∧
    Path.Canonical path ∧ loader.Current path

/-- Where files, stack and search path are the same, a name means the same. -/
theorem target_of_passes {before after : Loader σ} (passes : Passes before after)
    (searchPath : after.searchPath = before.searchPath) {path : String}
    (target : before.target requested = .ok path) : after.target requested = .ok path := by
  have resolved := resolve_of_target target
  rw [Loader.target, caller, passes.2, passes.1.machine, searchPath]
  rw [caller] at resolved
  rw [resolved]
  rfl

theorem UpToDate.of_passes {before after : Loader σ} (h : UpToDate before requested)
    (passes : Passes before after) (searchPath : after.searchPath = before.searchPath) :
    UpToDate after requested := by
  obtain ⟨path, target, isFile, canonical, current⟩ := h
  refine ⟨path, target_of_passes passes searchPath target, ?_, canonical,
    passes.1.current path current⟩
  rwa [passes.1.machine]

/-- A call for a module that is up to date gives skipped, and leaves it up to date. -/
theorem UpToDate.judge {loader : Loader σ} (h : UpToDate loader requested) :
    ∃ after, loader.judge requested = (.settled (.ok .skipped), after) ∧
      UpToDate after requested ∧ after.host = loader.host := by
  have ⟨path, target, isFile, canonical, current⟩ := h
  obtain ⟨after, verdict⟩ | ⟨entered, verdict⟩ := judge_of_file target canonical isFile
  · have searchPath := (samePaths_judge verdict).searchPath
    exact ⟨after, verdict, h.of_passes (passes_settled verdict) searchPath, host_judge verdict⟩
  · exact (not_current_of_due verdict current).elim

/-- A call that ends well leaves its module up to date. -/
theorem upToDate_of_runs (files : ReadsFiles executor) {loader after : Loader σ}
    {value : Script.Value} (runs : Runs executor (.call safe requested) loader (.ok value) after) :
    UpToDate after requested := by
  obtain verdict | ⟨path, entered, inner, verdict, body, rfl⟩ := runs.of_call_ok
  · have passes := passes_settled verdict
    cases judged verdict with
    | upToDate checks same hr =>
        have before : UpToDate loader requested :=
          ⟨_, checks.target, checks.isFile, checks.canonical, _, checks.signature, same⟩
        exact before.of_passes passes rfl
  · have inside := body.passes files (files.steady path)
    have passes := passes_module verdict inside
    have searchPath : entered.searchPath = loader.searchPath := (samePaths_judge verdict).searchPath
    cases judged verdict with
    | due checks _ _ =>
        refine ⟨path, target_of_passes passes searchPath checks.target, ?_, checks.canonical, ?_⟩
        · rw [passes.1.machine]
          exact checks.isFile
        · rcases read : loader.machine.read path with error | bytes
          · -- a module that cannot be read does not end well
            rw [← (advances_enter verdict).machine] at read
            obtain ⟨-, fault, hfault⟩ := body.of_unreadable files read
            cases hfault
          · exact inside.1.current path (current_enter verdict read)

end Loader

namespace CommandLine

open Loader Script

/-! ### Runs of a script -/

def skippedLines (times : Nat) : String :=
  String.join (List.replicate times (skippedLine ++ "\n"))

theorem skippedLines_succ (times : Nat) :
    skippedLines (times + 1) = skippedLine ++ "\n" ++ skippedLines times := by
  rw [skippedLines, List.replicate_succ, String.join_cons]
  rfl

theorem steady_runOnce (script : String) : (runOnce script).Steady := by
  refine (Program.steady_call true script).bind fun value => ?_
  have steady := composable_steady
  split
  · exact steady.print _
  · exact steady.bind (steady.done _) fun text => steady.bind (steady.done _) steady.print

/-- A script that is run once is required, and then a line is written. -/
theorem call_of_runOnce {loader after : Loader Host} {script : String} {depth : Nat}
    (run : loader.run executor depth (runOnce script) = some (.ok (), after)) :
    ∃ value middle line,
      callWith (execute executor depth) true script loader = some (.ok value, middle) ∧
      after = { middle with host := middle.host.print line } := by
  rw [Loader.run, runOnce, Program.call, Program.bind, runWith] at run
  rcases call : callWith (execute executor depth) true script loader with _ | ⟨outcome, middle⟩
  · rw [call] at run
    cases run
  · rw [call] at run
    cases outcome with
    | error fault => cases run
    | ok value =>
        simp only [Program.done_ok_bind] at run
        by_cases hskipped : value.isSkipped
        · rw [if_pos hskipped] at run
          cases run
          exact ⟨value, middle, skippedLine, rfl, rfl⟩
        · rw [if_neg hskipped] at run
          rcases hshown : value.shown with fault | text
          · rw [hshown] at run
            cases run
          · rw [hshown, Program.done_ok_bind] at run
            rcases hline : outputLine (resultLine text) with fault | line
            · rw [hline] at run
              cases run
            · rw [hline] at run
              cases run
              exact ⟨value, middle, line, rfl, rfl⟩

/-- A script that is up to date is skipped, and that is all. -/
theorem run_runOnce_of_upToDate {loader : Loader Host} {script : String}
    (h : loader.UpToDate script) (depth : Nat) :
    ∃ after, loader.run executor depth (runOnce script) = some (.ok (), after) ∧
      after.UpToDate script ∧ after.host.output = loader.host.output ++ (skippedLine ++ "\n") := by
  obtain ⟨middle, verdict, hmiddle, hhost⟩ := h.judge
  refine ⟨{ middle with host := middle.host.print skippedLine }, ?_, ?_, ?_⟩
  · rw [Loader.run, runOnce, Program.call, Program.bind, runWith, callWith_of_settled verdict,
      report_ok]
    rfl
  · exact hmiddle.of_passes ⟨.of_same rfl rfl, rfl⟩ rfl
  · simp only [Host.print, hhost, String.append_assoc]

theorem run_runTimes_of_upToDate {loader : Loader Host} {script : String}
    (h : loader.UpToDate script) (depth times : Nat) :
    ∃ after, loader.run executor depth (runTimes script times) = some (.ok (), after) ∧
      after.host.output = loader.host.output ++ skippedLines times := by
  induction times generalizing loader with
  | zero => exact ⟨loader, rfl, (String.append_empty).symm⟩
  | succ times ih =>
      obtain ⟨middle, hfirst, hmiddle, houtput⟩ := run_runOnce_of_upToDate h depth
      obtain ⟨after, hrest, hlines⟩ := ih hmiddle
      refine ⟨after, ?_, ?_⟩
      · rw [runTimes, run_bind, hfirst]
        exact hrest
      · rw [hlines, houtput, skippedLines_succ, String.append_assoc]

/-- What some more times add to what a script leaves that was run once: nothing if it failed, and
otherwise that it was skipped every time. -/
def Repeats (times : Nat) (first last : Except Fault Unit × Loader Host) : Prop :=
  match first.1 with
  | .error _ => last = first
  | .ok () => last.1 = .ok () ∧ last.2.host.output = first.2.host.output ++ skippedLines times

theorem Repeats.outcome_eq {times : Nat} {first last : Except Fault Unit × Loader Host}
    (h : Repeats times first last) : last.1 = first.1 := by
  obtain ⟨outcome, first⟩ := first
  cases outcome with
  | error fault =>
      obtain rfl : last = (.error fault, first) := h
      rfl
  | ok done => exact h.1

theorem exists_run_runTimes (loader : Loader Host) (script : String) (times : Nat) :
    ∃ first last,
      loader.run executor (depthBound loader.machine) (runTimes script 1) = some first ∧
      loader.run executor (depthBound loader.machine) (runTimes script (times + 1)) = some last ∧
      Repeats times first last := by
  obtain ⟨outcome, first, hrun⟩ := exists_run readsFiles_executor (steady_runOnce script)
    (ncard_pending_lt_depthBound loader)
  cases outcome with
  | error fault =>
      refine ⟨(.error fault, first), (.error fault, first), ?_, ?_, rfl⟩
      · rw [runTimes, run_bind, hrun]
      · rw [runTimes, run_bind, hrun]
  | ok done =>
      obtain ⟨value, middle, line, call, hfirst⟩ := call_of_runOnce hrun
      have hmiddle := upToDate_of_runs readsFiles_executor (runs_of_call call)
      have hupToDate : first.UpToDate script := by
        rw [hfirst]
        exact hmiddle.of_passes ⟨.of_same rfl rfl, rfl⟩ rfl
      obtain ⟨last, hlast, houtput⟩ :=
        run_runTimes_of_upToDate hupToDate (depthBound loader.machine) times
      refine ⟨(.ok (), first), (.ok (), last), ?_, ?_, rfl, houtput⟩
      · rw [runTimes, run_bind, hrun]
        rfl
      · rw [runTimes, run_bind, hrun]
        exact hlast

/-- The same result with what is written when the script is found unchanged so many times more, if
it was run well. -/
def Result.again (times : Nat) (result : Result) : Result :=
  if result.status = 0 then { result with output := result.output ++ skippedLines times }
  else result

@[simp] theorem Result.status_again (times : Nat) (result : Result) :
    (result.again times).status = result.status := by
  unfold Result.again
  split <;> rfl

namespace Invocation

variable {invocation : Invocation}

def once (invocation : Invocation) : Invocation := { invocation with times := 1 }

def outcome (invocation : Invocation) (environment : Option String) (machine : Machine) :
    Run Host Unit :=
  (invocation.loader environment machine).run executor (depthBound machine) invocation.program

/-- The loader that a script is required from: the head line is written. -/
def announced (invocation : Invocation) (environment : Option String) (machine : Machine) :
    Loader Host :=
  { invocation.loader environment machine with
    host := (invocation.loader environment machine).host.print (headLine invocation.argument) }

theorem outcome_of_run (run : invocation.command = .run) (environment : Option String)
    (machine : Machine) :
    invocation.outcome environment machine =
      (invocation.announced environment machine).run executor (depthBound machine)
        (runTimes invocation.argument invocation.times) := by
  have hprogram : invocation.program = runProgram invocation.argument invocation.times := by
    rw [program, run]
  rw [outcome, hprogram]
  rfl

theorem exists_outcome (environment : Option String) (machine : Machine)
    (run : invocation.command = .run) (positive : 1 ≤ invocation.times) :
    ∃ first last, invocation.once.outcome environment machine = some first ∧
      invocation.outcome environment machine = some last ∧
      Repeats (invocation.times - 1) first last := by
  obtain ⟨times, htimes⟩ := Nat.exists_eq_add_of_le' positive
  have honce : invocation.once.command = .run := run
  rw [outcome_of_run run, outcome_of_run honce, htimes]
  exact exists_run_runTimes (invocation.announced environment machine) invocation.argument times

def diagnostics (invocation : Invocation) (after : Loader Host) : String :=
  if invocation.verbose then logLines after.journal else ""

theorem diagnostics_of_quiet (quiet : invocation.verbose = false) (after : Loader Host) :
    invocation.diagnostics after = "" := by
  rw [diagnostics, quiet]
  rfl

section

variable {environment : Option String} {machine : Machine} {after : Loader Host} {fault : Fault}

theorem execute_of_ok (h : invocation.outcome environment machine = some (.ok (), after)) :
    invocation.execute environment machine =
      some (.ok ⟨0, after.host.output, invocation.diagnostics after,
        invocation.command == .run⟩) := by
  rw [outcome] at h
  rw [execute, h]
  rfl

theorem execute_of_reported {line : String}
    (h : invocation.outcome environment machine = some (.error fault, after))
    (hline : errorLine? fault = some line) :
    invocation.execute environment machine =
      some (.ok ⟨1, after.host.output, invocation.diagnostics after ++ line ++ "\n",
        invocation.command == .run⟩) := by
  rw [outcome] at h
  rw [execute, h]
  simp only [hline]
  rfl

theorem execute_of_unreported
    (h : invocation.outcome environment machine = some (.error fault, after))
    (hline : errorLine? fault = none) :
    invocation.execute environment machine = some (.error fault) := by
  rw [outcome] at h
  rw [execute, h]
  simp only [hline]

end

theorem execute_of_repeats {environment : Option String} {machine : Machine}
    {first last : Except Fault Unit × Loader Host} {times : Nat}
    (quiet : invocation.verbose = false)
    (hfirst : invocation.once.outcome environment machine = some first)
    (hlast : invocation.outcome environment machine = some last)
    (repeats : Repeats times first last) :
    ∃ result, invocation.once.execute environment machine = some result ∧
      invocation.execute environment machine = some (result.map (Result.again times)) := by
  have hquiet : invocation.once.verbose = false := quiet
  obtain ⟨outcome, first⟩ := first
  cases outcome with
  | error fault =>
      obtain rfl : last = (.error fault, first) := repeats
      rcases hline : errorLine? fault with _ | line
      · exact ⟨_, execute_of_unreported hfirst hline, execute_of_unreported hlast hline⟩
      · exact ⟨_, execute_of_reported hfirst hline, execute_of_reported hlast hline⟩
  | ok done =>
      obtain ⟨outcome, last⟩ := last
      obtain ⟨houtcome, houtput⟩ := repeats
      simp only at houtcome houtput
      subst houtcome
      refine ⟨_, execute_of_ok hfirst, (execute_of_ok hlast).trans ?_⟩
      rw [diagnostics_of_quiet quiet, diagnostics_of_quiet hquiet, houtput]
      rfl

end Invocation

/-- A script is run once, however often the command line asks for it. The command ends as it does
if the script is to be run once, with the same status and the same errors; and it writes the same,
followed by a line for every further time that says that the script was skipped, if the first run
was good. If the first run leaves the program by a fault, then that is all that happens. This holds
for all directories and scripts, whatever scripts load and do. The command line can be written with
every number that has not too many digits. -/
theorem repeated_script_runs_once (environment : Option String) (machine : Machine) :
    (∀ invocation : Invocation, invocation.command = .run → invocation.verbose = false →
      1 ≤ invocation.times →
      (∃ result, invocation.once.execute environment machine = some result ∧
        invocation.execute environment machine =
          some (result.map (Result.again (invocation.times - 1)))) ∧
      ∃ first last, invocation.once.outcome environment machine = some first ∧
        invocation.outcome environment machine = some last ∧
        Repeats (invocation.times - 1) first last) ∧
    ∀ script directories times, Plain script → (∀ directory ∈ directories, Plain directory) →
      1 ≤ times → times < 10 ^ Number.digitLimit →
      ∃ result, respond (runLine script directories 1) environment machine = some result ∧
        respond (runLine script directories times) environment machine =
          some (result.map (Result.again (times - 1))) := by
  have hinvocation (invocation : Invocation) (run : invocation.command = .run)
      (quiet : invocation.verbose = false) (positive : 1 ≤ invocation.times) :
      (∃ result, invocation.once.execute environment machine = some result ∧
        invocation.execute environment machine =
          some (result.map (Result.again (invocation.times - 1)))) ∧
      ∃ first last, invocation.once.outcome environment machine = some first ∧
        invocation.outcome environment machine = some last ∧
        Repeats (invocation.times - 1) first last := by
    obtain ⟨first, last, hfirst, hlast, repeats⟩ :=
      invocation.exists_outcome environment machine run positive
    exact ⟨Invocation.execute_of_repeats quiet hfirst hlast repeats,
      first, last, hfirst, hlast, repeats⟩
  refine ⟨hinvocation, fun script directories times hscript hdirectories positive few => ?_⟩
  have hone : 1 < 10 ^ Number.digitLimit := Nat.one_lt_pow (by decide) (by decide)
  have honce := ofArguments_runLine hscript hdirectories (Nat.le_refl 1)
  have htimes := ofArguments_runLine hscript hdirectories positive
  rw [if_pos hone] at honce
  rw [if_pos few] at htimes
  obtain ⟨⟨result, hresult, hagain⟩, -⟩ :=
    hinvocation (runOf script directories times) rfl rfl positive
  refine ⟨result, ?_, ?_⟩
  · simp only [respond, honce]
    exact hresult
  · simp only [respond, htimes]
    exact hagain

/-- `/a` prints, binds a name, and gives what the second load of itself gives. -/
def printingMachine : Machine :=
  ⟨⟨"/", "", []⟩, .build [] [(["a"], .ofText "print \"a\" let x = load \"/a\" return 1")]⟩

theorem repeated_script_runs_once_printingMachine :
    (runOf "a" ["."] 3).command = .run ∧ (runOf "a" ["."] 3).verbose = false ∧
      1 ≤ (runOf "a" ["."] 3).times ∧
      Plain "a" ∧ (∀ directory ∈ ["."], Plain directory) ∧ 3 < 10 ^ Number.digitLimit ∧
      respond (runLine "a" ["."] 3) none printingMachine =
        some (.ok ⟨0, headLine "a" ++ "\na\n" ++
          ("\n" ++ coloured Colour.green "--- Result: 1 ---") ++ "\n" ++ skippedLines 2, "",
          true⟩) := by
  have hfew : 3 < 10 ^ Number.digitLimit :=
    Nat.lt_of_lt_of_le (show 3 < 10 ^ 1 by decide) (Nat.pow_le_pow_right (by decide) (by decide))
  obtain ⟨-, hline⟩ := repeated_script_runs_once none printingMachine
  obtain ⟨result, hone, hthree⟩ :=
    hline "a" ["."] 3 (by decide) (by decide) (by decide) hfew
  have hfirst : (respond (runLine "a" ["."] 1) none printingMachine).map Except.toOption =
      some (some ⟨0, headLine "a" ++ "\na\n" ++
        ("\n" ++ coloured Colour.green "--- Result: 1 ---") ++ "\n", "", true⟩) := by
    decide +kernel
  refine ⟨rfl, rfl, by decide, by decide, by decide, hfew, ?_⟩
  rw [hone] at hfirst
  obtain fault | result := result
  · cases hfirst
  · obtain rfl : result = _ := by simpa [Except.toOption] using hfirst
    exact hthree

def bareMachine : Machine := ⟨⟨"/", "", []⟩, .build [] []⟩

/-- A number with too many digits is no number to the command line, which is then misused. -/
theorem overlong_number_is_refused :
    ¬∀ (environment : Option String) (machine : Machine) (script : String)
      (directories : List String) (times : Nat),
      Plain script → (∀ directory ∈ directories, Plain directory) → 1 ≤ times →
      ∃ result, respond (runLine script directories 1) environment machine = some result ∧
        respond (runLine script directories times) environment machine =
          some (result.map (Result.again (times - 1))) := by
  intro h
  have hfirst : (respond (runLine "a" [] 1) none bareMachine).map
      (fun result => result.toOption.map Result.status) = some (some 1) := by
    decide +kernel
  obtain ⟨times, hmany⟩ : ∃ times, 10 ^ Number.digitLimit = times := ⟨_, rfl⟩
  have hpositive : 1 ≤ times := hmany ▸ Nat.one_le_pow _ _ (by decide)
  obtain ⟨result, hone, htimes⟩ := h none bareMachine "a" [] times (by decide) (by simp) hpositive
  have hread := @ofArguments_runLine "a" [] (by decide) (by simp) times hpositive
  rw [if_neg (by rw [hmany]; exact Nat.lt_irrefl times)] at hread
  simp only [respond, hread, Option.some.injEq] at htimes
  rw [hone] at hfirst
  obtain fault | result := result
  · cases htimes
  · have hstatus : result.status = 1 := by simpa [Except.toOption] using hfirst
    have hagain : 2 = (Result.again (times - 1) result).status :=
      congrArg (fun result => result.toOption.map Result.status) htimes |> Option.some.inj
    simp [hstatus] at hagain

end CommandLine

end ScriptLoader
