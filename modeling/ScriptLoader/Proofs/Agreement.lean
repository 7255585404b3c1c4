import ScriptLoader.Proofs.Exits
import ScriptLoader.Proofs.Hits

/-!
Two commands, one resolution. A name is looked for in the directories of the command line, then in
those that the variable of the environment lists. The command that resolves a name prints the path
at which the command that runs it begins, and fails exactly if that one finds nothing under the
name: what a module further down does not find has a caller.
-/

namespace ScriptLoader

/-! ### The directories of the environment -/

def Settings.Pieces (text : String) (pieces : List (List Char)) : Prop :=
  [':'].intercalate pieces = text.toList ∧ ∀ piece ∈ pieces, ':' ∉ piece

/-! ### Calls at the top level -/

namespace Loader

variable {σ α : Type} {executor : Executor σ} {loader entered after : Loader σ}
  {requested path : String} {safe : Bool}

/-- The module that a call has to run is begun before all others of the run. -/
theorem Runs.first_started {next : Except Fault Script.Value → Program σ α}
    {outcome : Except Fault α}
    (runs : Runs executor (.load safe requested next) loader outcome after)
    (verdict : loader.judge requested = (.due path, entered))
    (fresh : startedPaths loader.journal = []) :
    (startedPaths after.journal).getLast? = some path := by
  cases runs with
  | settled verdict' _ => cases verdict.symm.trans verdict'
  | module verdict' body rest =>
      cases verdict.symm.trans verdict'
      have hbegun : .started path (entered.stack.depth + 1) :: entered.journal <:+ after.journal :=
        body.journal_suffix.trans rest.journal_suffix
      obtain ⟨later, hjournal⟩ := hbegun
      obtain ⟨events, hentered, hquiet⟩ := startedPaths_judge verdict
      have hstarted : startedPaths
          (.started path (entered.stack.depth + 1) :: entered.journal) = [path] := by
        show path :: startedPaths entered.journal = [path]
        simp [hentered, hquiet, fresh]
      simp [← hjournal, hstarted]

/-- Modules have names, so only the outermost of the calls can be made by no module. -/
theorem Linked.of_no_caller {caller : String} {outer : List (Frame σ)} {last : Frame σ}
    (linked : Linked caller (outer ++ [last])) (top : last.caller = "") : outer = [] := by
  induction outer generalizing caller with
  | nil => rfl
  | cons call rest ih =>
      obtain ⟨-, hnone | ⟨path, target, inner⟩⟩ := linked
      · simp at hnone
      · obtain rfl := ih inner
        have hpath : path = "" := inner.1.symm.trans top
        exact (Resolve.ne_empty_of_resolve (resolve_of_target target) hpath).elim

/-- A fault is a wrapper, and directly in it a name was not found that no module has asked for. -/
def MissingAtTop (fault : Fault) : Prop :=
  ∃ name missing caller, fault = .moduleLoad name (.notFound missing (some "")) caller

/-- A safe load by no module tells of a missing name that no module has asked for exactly if its own
name is missing. -/
theorem Runs.missingAtTop_iff {outcome : Except Fault Script.Value}
    (runs : Runs executor (.call true requested) loader outcome after) (files : ReadsFiles executor)
    (raises : ∀ path, (executor path).Raises (Fault.OfScript (some path)))
    (absolute : Path.isAbsolute loader.machine.workingDirectory = true) :
    (∃ fault, outcome = .error fault ∧ MissingAtTop fault) ↔
      loader.target requested = .error (.notFound requested (some "")) := by
  constructor
  · rintro ⟨fault, failed, name, missing, caller, rfl⟩
    have hcalls : (Program.call true requested : Program σ Script.Value).Raises fun _ => False :=
      Program.raises_call true requested
    obtain ⟨calls, origin, first, linked, blames⟩ :=
      runs.blames files raises (Program.steady_call true requested) hcalls absolute failed
    have hhead := first.head?_of_call
    generalize hfault :
      Fault.moduleLoad name (.notFound missing (some "")) caller = fault at blames
    have hcause : fault.rootCause = .notFound missing (some "") := by
      rw [← hfault]
      rfl
    cases blames with
    | here own => exact own.elim
    | impossible _ _ => cases hfault
    | misplaced _ _ =>
        rw [Frame.rootCause_wrapAll rfl] at hcause
        cases hcause
    | @root outer last _ root hroot =>
        rw [Frame.rootCause_wrapAll hroot.not_isModuleLoad] at hcause
        cases hroot with
        | notFound target =>
            have hcaller : last.caller = "" := by injection hcause with _ h; exact Option.some.inj h
            obtain rfl := linked.of_no_caller hcaller
            obtain rfl : last = ⟨true, requested, loader⟩ := by simpa using hhead
            rw [← hcaller]
            exact target
        | notAFile _ _ => cases hcause
        | execution _ _ => cases hcause
  · intro target
    obtain ⟨middle, hsettled⟩ := judge_of_error target
    obtain ⟨given, verdict, rfl⟩ | ⟨_, _, _, _, verdict, -⟩ := runs.of_call
    · cases hsettled.symm.trans verdict
      exact ⟨_, rfl, requested, requested, _, rfl⟩
    · cases hsettled.symm.trans verdict

end Loader

namespace CommandLine

open Loader Script

namespace Invocation

variable {asked ran : Invocation} {environment : Option String} {machine : Machine}

/-- The directories in which a command line looks for a name: its own, and then the pieces of the
variable that are not empty, or the working directory if there are none. -/
def order (invocation : Invocation) (pieces : List (List Char)) : List String :=
  invocation.directories ++
    if invocation.obstructed then []
    else
      match (pieces.filter (· ≠ [])).map String.ofList with
      | [] => ["."]
      | listed => listed

theorem exists_pieces (invocation : Invocation) (environment : Option String) (machine : Machine) :
    ∃ pieces, Settings.Pieces (environment.getD "") pieces ∧
      (invocation.loader environment machine).searchPath.directories = invocation.order pieces := by
  refine ⟨(environment.getD "").toList.splitOn ':', ⟨List.intercalate_splitOn ':', ?_⟩, ?_⟩
  · intro piece hmem
    exact Path.not_mem_of_mem_splitOn hmem
  · have hlisted : Settings.environmentDirectories environment =
        (((environment.getD "").toList.splitOn ':').filter (· ≠ [])).map String.ofList := by
      rw [Settings.environmentDirectories]
      congr 2
      funext piece
      cases piece <;> rfl
    show (invocation.settings environment).searchPath = _
    rw [order, ← hlisted, settings]
    cases invocation.obstructed with
    | false => rfl
    | true => exact (List.append_nil _).symm

/-! ### Resolving -/

/-- The name that a command resolves means a path, which is written. -/
theorem answer_of_target (resolve : asked.command = .resolve) {path : String}
    (target : (asked.loader environment machine).target asked.argument = .ok path) :
    ∃ log, asked.execute environment machine = some (.ok ⟨0, path ++ "\n", log, false⟩) := by
  obtain ⟨after, houtcome, houtput⟩ := outcome_of_resolve environment machine resolve
  rw [target] at houtcome
  refine ⟨asked.diagnostics after, ?_⟩
  rw [execute_of_ok houtcome, houtput path target, resolve]
  rfl

/-- A name that means nothing is reported, unless it cannot even be looked for. -/
theorem answer_of_target_error (resolve : asked.command = .resolve) {fault : Fault}
    (target : (asked.loader environment machine).target asked.argument = .error fault) :
    (fault = .notFound asked.argument (some "") ∧
      ∃ result, asked.execute environment machine = some (.ok result) ∧ result.status = 1) ∨
    ((asked.loader environment machine).Unsearchable asked.argument fault ∧
      asked.execute environment machine = some (.error fault)) := by
  obtain ⟨after, houtcome, -⟩ := outcome_of_resolve environment machine resolve
  rw [target] at houtcome
  obtain rfl | unsearchable := notFound_or_unsearchable target
  · exact .inl ⟨rfl, _, execute_of_reported houtcome rfl, rfl⟩
  · refine .inr ⟨unsearchable, execute_of_unreported houtcome ?_⟩
    cases unsearchable <;> rfl

/-- Resolving ends with status 1 exactly if nothing is found under the name. -/
theorem status_one_iff (resolve : asked.command = .resolve) :
    (∃ result, asked.execute environment machine = some (.ok result) ∧ result.status = 1) ↔
      (asked.loader environment machine).target asked.argument =
        .error (.notFound asked.argument (some "")) := by
  rcases target : (asked.loader environment machine).target asked.argument with fault | path
  · obtain ⟨rfl, hstatus⟩ | ⟨unsearchable, hfault⟩ := answer_of_target_error resolve target
    · exact iff_of_true hstatus rfl
    · rw [hfault]
      refine iff_of_false (by simp) ?_
      cases unsearchable <;> simp
  · obtain ⟨log, hanswer⟩ := answer_of_target resolve target
    rw [hanswer]
    exact iff_of_false (by simp) (by simp)

/-! ### Running -/

structure Alike (asked ran : Invocation) : Prop where
  resolve : asked.command = .resolve
  run : ran.command = .run
  argument : ran.argument = asked.argument
  directories : ran.directories = asked.directories
  obstructed : ran.obstructed = asked.obstructed

/-- The name means the same to both. -/
theorem Alike.target_eq (alike : Alike asked ran) :
    (ran.announced environment machine).target ran.argument =
      (asked.loader environment machine).target asked.argument := by
  have hsettings : ran.settings environment = asked.settings environment := by
    simp only [settings, alike.directories, alike.obstructed]
  rw [alike.argument]
  simp only [target, announced, loader, hsettings, alike.obstructed]
  rfl

/-- A script that there is is begun before all others. -/
theorem exists_first_started (run : ran.command = .run) (positive : 1 ≤ ran.times)
    (absolute : Path.isAbsolute machine.workingDirectory = true) {path : String}
    (target : (ran.announced environment machine).target ran.argument = .ok path)
    (isFile : machine.isFile path = true) :
    ∃ outcome after, ran.outcome environment machine = some (outcome, after) ∧
      (startedPaths after.journal).getLast? = some path := by
  obtain ⟨outcome, after, houtcome⟩ :=
    ran.exists_outcome_of_positive environment machine positive
  refine ⟨outcome, after, houtcome, ?_⟩
  have canonical := canonical_of_target absolute target
  -- nothing is recorded yet, so the file is not up to date
  obtain ⟨middle, hskipped⟩ | ⟨entered, verdict⟩ := judge_of_file target canonical isFile
  · cases judged hskipped with
    | upToDate _ same _ => cases same
  · obtain ⟨times, htimes⟩ := Nat.exists_eq_add_of_le' positive
    rw [outcome_of_run run, htimes] at houtcome
    exact (runs_of_run houtcome).first_started verdict rfl

/-- What cannot be written is not reported by a wrapper. -/
theorem eq_error_of_said {given : Except Fault Value} {fault : Fault}
    (h : said given = .error fault) (missing : MissingAtTop fault) : given = .error fault := by
  cases given with
  | error error =>
      cases h
      rfl
  | ok value =>
      obtain ⟨name, requested, caller, rfl⟩ := missing
      obtain ⟨n, -, -, hfault⟩ | ⟨text, failure, -, -, hfault⟩ := said_eq_error h
      · cases hfault
      · cases hfault

/-- Running ends with a name that no module has asked for exactly if it is that of the script. -/
theorem missingAtTop_iff (run : ran.command = .run) (positive : 1 ≤ ran.times)
    (absolute : Path.isAbsolute machine.workingDirectory = true) :
    (∃ fault after, ran.outcome environment machine = some (.error fault, after) ∧
      MissingAtTop fault) ↔
    (ran.announced environment machine).target ran.argument =
      .error (.notFound ran.argument (some "")) := by
  obtain ⟨given, middle, after, runs, outcome⟩ :=
    exists_outcome_of_run environment machine run positive
  rw [← runs.missingAtTop_iff readsFiles_executor raises_executor absolute, outcome]
  constructor
  · rintro ⟨fault, last, heq, missing⟩
    exact ⟨fault, eq_error_of_said (congrArg Prod.fst (Option.some.inj heq)) missing, missing⟩
  · rintro ⟨fault, rfl, missing⟩
    exact ⟨fault, after, rfl, missing⟩

end Invocation

/-- Of two command lines for one name, with the same directories, one resolves the name and the
other runs it, as often as it likes. For all files, all directories and all values of the variable:

* if the name is not anchored, it is looked for in the directories of the command line in their
  order, and then in the pieces of the variable that are not empty, or in the working directory if
  there are none; the canonical form of the first regular file is written, and if there is none, the
  command ends with status 1, unless the search comes to what is no directory;
* if what is written is the path of a regular file, that file is the first that is begun by the
  other command;
* resolving ends with status 1 exactly if running ends with a wrapper that directly holds a name
  which was not found and for which no module has asked. -/
theorem resolve_agrees_with_run {asked ran : Invocation} (alike : asked.Alike ran)
    (positive : 1 ≤ ran.times) (environment : Option String) {machine : Machine}
    (absolute : Path.isAbsolute machine.workingDirectory = true) :
    (Path.isAnchored asked.argument = false →
      ∃ pieces, Settings.Pieces (environment.getD "") pieces ∧
        ((∃ path log, Resolve.FirstFile machine (asked.order pieces) asked.argument path ∧
            asked.execute environment machine = some (.ok ⟨0, path ++ "\n", log, false⟩)) ∨
          (∀ directory ∈ asked.order pieces,
            machine.isFile (Resolve.candidate directory asked.argument) = false) ∧
            (asked.obstructed = false → ∃ result,
              asked.execute environment machine = some (.ok result) ∧ result.status = 1))) ∧
    (∀ path result, asked.execute environment machine = some (.ok result) → result.status = 0 →
      result.output = path ++ "\n" → machine.isFile path = true →
      ∃ outcome after, ran.outcome environment machine = some (outcome, after) ∧
        (startedPaths after.journal).getLast? = some path) ∧
    ((∃ result, asked.execute environment machine = some (.ok result) ∧ result.status = 1) ↔
      ∃ fault after, ran.outcome environment machine = some (.error fault, after) ∧
        MissingAtTop fault) := by
  refine ⟨fun searched => ?_, fun path result answer good written isFile => ?_, ?_⟩
  · obtain ⟨pieces, hpieces, horder⟩ := asked.exists_pieces environment machine
    refine ⟨pieces, hpieces, ?_⟩
    obtain ⟨path, first, hresolve⟩ | ⟨missing, hresolve⟩ :=
      @Resolve.firstFile_or_missing machine (asked.order pieces) asked.argument searched
    · replace hresolve := hresolve ""
      rw [← horder] at hresolve
      obtain ⟨log, answer⟩ := Invocation.answer_of_target alike.resolve
        (show (asked.loader environment machine).target asked.argument = .ok path from
          congrArg (Except.mapError _) hresolve)
      exact .inl ⟨path, log, first, answer⟩
    · refine .inr ⟨missing, fun reachable => (Invocation.status_one_iff alike.resolve).mpr ?_⟩
      replace hresolve := hresolve ""
      rw [← horder] at hresolve
      have hfault : (asked.loader environment machine).searchFault asked.argument
          (.notFound asked.argument (some "")) = .notFound asked.argument (some "") := by
        simp [searchFault, Invocation.loader, reachable]
      exact (congrArg (Except.mapError _) hresolve).trans (congrArg Except.error hfault)
  · refine Invocation.exists_first_started alike.run positive absolute ?_ isFile
    rw [alike.target_eq]
    rcases target : (asked.loader environment machine).target asked.argument with fault | found
    · obtain ⟨-, reported, hreported, hstatus⟩ | ⟨-, hfault⟩ :=
        Invocation.answer_of_target_error alike.resolve target
      · cases answer.symm.trans hreported
        cases good.symm.trans hstatus
      · cases answer.symm.trans hfault
    · obtain ⟨log, hanswer⟩ := Invocation.answer_of_target alike.resolve target
      cases answer.symm.trans hanswer
      rw [String.append_left_inj] at written
      rw [written]
  · rw [Invocation.status_one_iff alike.resolve,
      Invocation.missingAtTop_iff alike.run positive absolute, alike.target_eq, alike.argument]

/-- Two directories have a script `a`, and the first of them has the one that it loads. -/
def listedMachine : Machine :=
  ⟨⟨"/w", "/h", []⟩, .build []
    [(["a", "p", "w"], .ofText "return load \"b\""), (["b", "p", "w"], .ofText "return load \"c\""),
      (["a", "q", "w"], .ofText "return 1")]⟩

/-- The first of them is written, and begun first. The name that is missing then has a caller, so
running fails in another way than resolving would. -/
theorem resolve_agrees_with_run_listedMachine :
    ∃ asked ran : Invocation,
      Invocation.ofArguments ["resolve", "-I", "d", "a"] = .ok asked ∧
      Invocation.ofArguments ["run", "-I", "d", "a"] = .ok ran ∧
      asked.Alike ran ∧ 1 ≤ ran.times ∧
      Path.isAbsolute listedMachine.workingDirectory = true ∧
      Path.isAnchored asked.argument = false ∧
      respond ["resolve", "-I", "d", "a"] (some ":p::q") listedMachine =
        some (.ok ⟨0, "/w/p/a\n", "", false⟩) ∧
      (∃ pieces, Settings.Pieces ":p::q" pieces ∧
        Resolve.FirstFile listedMachine (asked.order pieces) asked.argument "/w/p/a") ∧
      (∃ outcome after, ran.outcome (some ":p::q") listedMachine = some (outcome, after) ∧
        (startedPaths after.journal).getLast? = some "/w/p/a") ∧
      ¬∃ fault after, ran.outcome (some ":p::q") listedMachine = some (.error fault, after) ∧
        MissingAtTop fault := by
  have hasked : Invocation.ofArguments ["resolve", "-I", "d", "a"] =
      .ok ⟨.resolve, "a", ["d"], false, 1, false⟩ := by
    decide +kernel
  have hran : Invocation.ofArguments ["run", "-I", "d", "a"] = .ok (runOf "a" ["d"] 1) := by
    decide +kernel
  have halike : Invocation.Alike ⟨.resolve, "a", ["d"], false, 1, false⟩ (runOf "a" ["d"] 1) :=
    ⟨rfl, rfl, rfl, rfl, rfl⟩
  have absolute : Path.isAbsolute listedMachine.workingDirectory = true := by decide
  obtain ⟨hsearch, hbegun, hmissing⟩ :=
    resolve_agrees_with_run halike (Nat.le_refl 1) (some ":p::q") absolute
  have hexecute : (Invocation.execute ⟨.resolve, "a", ["d"], false, 1, false⟩ (some ":p::q")
      listedMachine).map Except.toOption = some (some ⟨0, "/w/p/a\n", "", false⟩) := by
    decide +kernel
  obtain ⟨answer, hanswer, hresult⟩ := Option.map_eq_some_iff.mp hexecute
  obtain fault | result := answer
  · cases hresult
  · obtain rfl : result = ⟨0, "/w/p/a\n", "", false⟩ := Option.some.inj hresult
    have searched : Path.isAnchored "a" = false := by decide
    refine ⟨_, _, hasked, hran, halike, Nat.le_refl 1, absolute, searched, ?_, ?_,
      hbegun "/w/p/a" _ hanswer rfl rfl (by decide +kernel), fun h => ?_⟩
    · simp only [respond, hasked, hanswer]
    · obtain ⟨pieces, hpieces, ⟨path, log, first, hfirst⟩ | ⟨-, hnone⟩⟩ := hsearch searched
      · have hsame := Except.ok.inj (Option.some.inj (hanswer.symm.trans hfirst))
        have houtput : "/w/p/a" ++ "\n" = path ++ "\n" := congrArg Result.output hsame
        obtain rfl := (String.append_left_inj "\n").mp houtput
        exact ⟨pieces, hpieces, first⟩
      · obtain ⟨result, hresult', hstatus⟩ := hnone rfl
        cases hanswer.symm.trans hresult'
        cases hstatus
    · obtain ⟨result, hresult', hstatus⟩ := hmissing.mpr h
      cases hanswer.symm.trans hresult'
      cases hstatus

end CommandLine

end ScriptLoader
