import ScriptLoader.Proofs.Boundary
import ScriptLoader.Proofs.Repetition

/-!
How the program ends. A command that fails is reported by one line on the error output, because all
that comes out of a required script is a wrapper: scripts do not interrupt, and every other fault
meets the boundary of the call. Three things are not caught. A name that cannot be looked for has a
fault from outside, and so has a value that is given well but is an integer that is too long to be
written, or a text with a surrogate.
-/

namespace ScriptLoader

theorem Fault.isInterrupt_of_isLoaderFault {fault : Fault} (h : fault.isLoaderFault = true) :
    fault.isInterrupt = false := by
  cases fault <;> first | rfl | cases h

namespace Loader

/-! ### Scripts do not interrupt -/

section Interrupts

variable {σ α : Type} {executor : Executor σ} {loader middle after : Loader σ} {requested : String}
  {safe : Bool} {fault reported : Fault}

theorem not_isInterrupt_of_refused
    (verdict : loader.judge requested = (.settled (.error fault), middle)) :
    fault.isInterrupt = false := by
  cases judged verdict with
  | unresolved target _ =>
      obtain rfl | unsearchable := notFound_or_unsearchable target
      · rfl
      · cases unsearchable <;> rfl
  | notAFile _ _ _ => rfl
  | notCanonical _ _ _ _ => rfl

theorem not_isInterrupt_of_report (h : fault.isInterrupt = false)
    (hreported : loader.report safe requested (.error fault) = .error reported) :
    reported.isInterrupt = false := by
  cases safe with
  | false =>
      cases hreported
      exact h
  | true =>
      cases hreported
      unfold Fault.ofRequired
      split
      · rfl
      · exact h

/-- Modules that raise no interrupt do not end with one. -/
theorem Runs.not_isInterrupt {program : Program σ α} {outcome : Except Fault α}
    (runs : Runs executor program loader outcome after)
    (modules : ∀ path, (executor path).Raises fun fault => fault.isInterrupt = false)
    (raises : program.Raises fun fault => fault.isInterrupt = false)
    (failed : outcome = .error fault) : fault.isInterrupt = false := by
  induction runs generalizing fault with
  | done outcome loader =>
      subst failed
      exact raises
  | asked rest ih => exact ih (raises _) failed
  | @settled _ safe requested next loader _ _ given _ verdict rest ih =>
      cases given with
      | error error =>
          obtain ⟨reported, hreported, houtcome⟩ := rest.of_report_error raises.1
          cases houtcome.symm.trans failed
          exact not_isInterrupt_of_report (not_isInterrupt_of_refused verdict) hreported
      | ok value =>
          rw [report_ok] at ih
          exact ih (raises.2 _) failed
  | @module _ safe requested path next loader entered inner _ given _ verdict body rest ihbody
      ihrest =>
      cases given with
      | error error =>
          obtain ⟨reported, hreported, houtcome⟩ := rest.of_report_error raises.1
          cases houtcome.symm.trans failed
          have hmodule := Fault.isLoaderFault_ofModule (ihbody (modules path) rfl) path
            entered.caller
          exact not_isInterrupt_of_report (Fault.isInterrupt_of_isLoaderFault hmodule) hreported
      | ok value =>
          rw [report_mapError_ok] at ihrest
          exact ihrest (raises.2 _) failed

end Interrupts

end Loader

namespace CommandLine

open Loader Script

/-! ### The outcome of a command -/

/-- What is left of a script's outcome when it has been said. -/
def said (given : Except Fault Value) : Except Fault Unit :=
  (given.bind fun value => value.shown.bind fun text => outputLine (resultLine text)).map
    fun _ => ()

theorem resultLine_ofString (text : String) : ∃ line : String, resultLine text = ↑line :=
  ⟨"\n" ++ Colour.green ++ "--- Result: " ++ text ++ (" ---" ++ Colour.reset), by simp [resultLine]⟩

theorem said_skipped : said (.ok .skipped) = .ok () := by
  obtain ⟨line, hline⟩ := resultLine_ofString "skipped"
  show (outputLine (resultLine "skipped")).map _ = _
  rw [hline, outputLine_ofString]
  rfl

/-- What is given well is not said if it is an integer that is too long, or a text that cannot be
put out in its line. -/
theorem said_eq_error {value : Value} {fault : Fault} (h : said (.ok value) = .error fault) :
    (∃ n, value = .number (.int n) ∧ Number.integerText? n = none ∧
      fault = TooLarge.toWrite.fault) ∨
    ∃ text failure, value = .text text ∧ (resultLine text).write = .error failure ∧
      fault = Script.unwritable failure := by
  simp only [said, Except.bind] at h
  rcases hshown : value.shown with error | text
  · obtain ⟨n, rfl, long, rfl⟩ := Value.shown_eq_error hshown
    simp only [hshown, Except.map] at h
    exact .inl ⟨n, rfl, long, (Except.error.inj h).symm⟩
  · rcases houtput : outputLine (resultLine text) with error | line
    · obtain ⟨failure, surrogate, rfl⟩ := outputLine_eq_error_iff.mp houtput
      simp only [hshown, houtput, Except.map] at h
      obtain rfl | ⟨line, rfl⟩ := Value.eq_text_or_string_of_shown hshown
      · exact .inr ⟨text, failure, rfl, surrogate, (Except.error.inj h).symm⟩
      · obtain ⟨whole, hwhole⟩ := resultLine_ofString line
        simp [hwhole] at surrogate
    · simp only [hshown, houtput, Except.map] at h
      cases h

theorem said_of_long {n : Int} (long : Number.integerText? n = none) :
    said (.ok (.number (.int n))) = .error TooLarge.toWrite.fault := by
  simp only [said, Except.bind, Value.shown_of_long long]
  rfl

theorem said_of_unwritable {text : CodePoints} {failure : Unwritable}
    (surrogate : (resultLine text).write = .error failure) :
    said (.ok (.text text)) = .error (Script.unwritable failure) := by
  show (outputLine (resultLine text)).map _ = _
  rw [outputLine_of_error surrogate]
  rfl

/-- A script that is run once is required, and what is given is said. -/
theorem exists_run_of_call {loader middle : Loader Host} {script : String} {depth : Nat}
    {given : Except Fault Value}
    (call : callWith (execute executor depth) true script loader = some (given, middle)) :
    ∃ after, loader.run executor depth (runTimes script 1) = some (said given, after) := by
  rw [runTimes, runOnce, Program.call, Program.bind, Program.bind, Loader.run, runWith, call]
  cases given with
  | error fault => exact ⟨middle, rfl⟩
  | ok value =>
      by_cases hskipped : value = .skipped
      · subst hskipped
        rw [said_skipped]
        exact ⟨_, rfl⟩
      · simp only [Program.done_ok_bind, if_neg (mt Value.isSkipped_iff.mp hskipped), said,
          Except.bind]
        rcases value.shown with fault | text
        · exact ⟨middle, rfl⟩
        · simp only [Program.done_ok_bind]
          rcases outputLine (resultLine text) with fault | line
          · exact ⟨middle, rfl⟩
          · exact ⟨_, rfl⟩

namespace Invocation

variable {invocation : Invocation} {environment : Option String} {machine : Machine}

/-- However often a script is run, the command ends as the first call does. -/
theorem exists_outcome_of_run (environment : Option String) (machine : Machine)
    (run : invocation.command = .run) (positive : 1 ≤ invocation.times) :
    ∃ given middle after,
      Runs executor (.call true invocation.argument) (invocation.announced environment machine)
        given middle ∧
      invocation.outcome environment machine = some (said given, after) := by
  obtain ⟨given, middle, runs⟩ :=
    exists_runs_call (invocation.announced environment machine) true invocation.argument
  obtain ⟨spoken, hspoken⟩ := exists_run_of_call (callWith_of_runs runs (Nat.le_refl _))
  obtain ⟨first, ⟨outcome, last⟩, hfirst, hlast, repeats⟩ :=
    invocation.exists_outcome environment machine run positive
  have honce : invocation.once.outcome environment machine = some (said given, spoken) :=
    (outcome_of_run (show invocation.once.command = .run from run) _ _).trans hspoken
  cases hfirst.symm.trans honce
  obtain rfl : outcome = said given := repeats.outcome_eq
  exact ⟨given, middle, last, runs, hlast⟩

/-- A name is resolved once, and the path that it means is written. -/
theorem outcome_of_resolve (environment : Option String) (machine : Machine)
    (resolve : invocation.command = .resolve) :
    ∃ after, invocation.outcome environment machine =
      some (((invocation.loader environment machine).target invocation.argument).map fun _ => (),
        after) ∧
      ∀ path, (invocation.loader environment machine).target invocation.argument = .ok path →
        after.host.output = path ++ "\n" := by
  have hprogram : invocation.program = resolveProgram invocation.argument := by
    rw [program, resolve]
  rw [outcome, hprogram]
  show ∃ after, runWith _ ((Program.done
    ((invocation.loader environment machine).target invocation.argument)).bind say) _ = _ ∧ _
  rcases (invocation.loader environment machine).target invocation.argument with fault | path
  · refine ⟨_, rfl, fun path h => ?_⟩
    cases h
  · refine ⟨_, rfl, fun path h => ?_⟩
    cases h
    obtain ⟨found, -, hnote⟩ :=
      exists_noteResolved (invocation.loader environment machine) invocation.argument
    show ((invocation.loader environment machine).noteResolved invocation.argument).host.output ++
      path ++ "\n" = _
    rw [hnote]
    exact congrArg (· ++ "\n") String.empty_append

theorem exists_outcome_of_positive (invocation : Invocation) (environment : Option String)
    (machine : Machine) (positive : 1 ≤ invocation.times) :
    ∃ outcome after, invocation.outcome environment machine = some (outcome, after) := by
  cases command : invocation.command with
  | run =>
      obtain ⟨given, middle, after, -, outcome⟩ :=
        exists_outcome_of_run environment machine command positive
      exact ⟨_, after, outcome⟩
  | resolve =>
      obtain ⟨after, outcome, -⟩ := outcome_of_resolve environment machine command
      exact ⟨_, after, outcome⟩

/-- The faults that leave the program: the name cannot be looked for, or the script gives an integer
that is too long to be written, or a text with a surrogate, which cannot be put out. -/
inductive Leaves (environment : Option String) (machine : Machine) (invocation : Invocation) :
    Fault → Prop
  | unsearchable {fault : Fault}
      (h : (invocation.loader environment machine).Unsearchable invocation.argument fault) :
      Leaves environment machine invocation fault
  | tooLong {n : Int} {after : Loader Host} (run : invocation.command = .run)
      (given : Runs executor (.call true invocation.argument)
        (invocation.announced environment machine) (.ok (.number (.int n))) after)
      (long : Number.integerText? n = none) :
      Leaves environment machine invocation TooLarge.toWrite.fault
  | unwritable {text : CodePoints} {failure : Unwritable} {after : Loader Host}
      (run : invocation.command = .run)
      (given : Runs executor (.call true invocation.argument)
        (invocation.announced environment machine) (.ok (.text text)) after)
      (surrogate : (resultLine text).write = .error failure) :
      Leaves environment machine invocation (Script.unwritable failure)

theorem unsearchable_announced_iff {requested : String} {fault : Fault} :
    (invocation.announced environment machine).Unsearchable requested fault ↔
      (invocation.loader environment machine).Unsearchable requested fault := by
  constructor
  · rintro (impossible | ⟨obstructed, searched, nowhere⟩)
    · exact .home impossible
    · exact .obstacle obstructed searched nowhere
  · rintro (impossible | ⟨obstructed, searched, nowhere⟩)
    · exact .home impossible
    · exact .obstacle obstructed searched nowhere

/-- A command ends with every fault that leaves the program. -/
theorem Leaves.exists_outcome {fault : Fault} (h : Leaves environment machine invocation fault)
    (positive : 1 ≤ invocation.times) :
    ∃ after, invocation.outcome environment machine = some (.error fault, after) := by
  cases command : invocation.command with
  | run =>
      obtain ⟨given, middle, after, runs, outcome⟩ :=
        exists_outcome_of_run environment machine command positive
      refine ⟨after, outcome.trans ?_⟩
      cases h with
      | unsearchable h =>
          cases runs.of_unsearchable (unsearchable_announced_iff.mpr h)
          rfl
      | tooLong _ given' long =>
          obtain ⟨rfl, -⟩ := runs.unique given'
          rw [said_of_long long]
      | unwritable _ given' surrogate =>
          obtain ⟨rfl, -⟩ := runs.unique given'
          rw [said_of_unwritable surrogate]
  | resolve =>
      obtain ⟨after, outcome, -⟩ := outcome_of_resolve environment machine command
      refine ⟨after, outcome.trans ?_⟩
      cases h with
      | unsearchable h => rw [h.target, Except.map]
      | tooLong run _ _ => cases command.symm.trans run
      | unwritable run _ _ => cases command.symm.trans run

end Invocation

end CommandLine

end ScriptLoader
