import ScriptLoader.Proofs.Steps

/-!
Runs without a bound on how deeply modules nest. `Runs` relates a program and the loader that it
begins with to its outcome and the loader that it leaves; it holds exactly if the bounded run gives
that result for some depth. `Reaches` names the moments of a run, also of one that never ends: which
modules are running, what is left of the newest one, and the loader as it is.

What loading preserves is proved once for all runs: `Kept` lists what has to be checked for the
single steps.
-/

namespace ScriptLoader

def Program.Asks {σ α : Type} (allowed : Request σ → Prop) : Program σ α → Prop
  | .done _ => True
  | .load _ _ next => ∀ answer, (next answer).Asks allowed
  | .ask request next => allowed request ∧ ∀ answer, (next answer).Asks allowed

theorem Program.asks_true {σ α : Type} (program : Program σ α) :
    program.Asks fun _ => True := by
  induction program with
  | done _ => trivial
  | load _ _ _ ih => exact ih
  | ask _ _ ih => exact ⟨trivial, ih⟩

theorem Program.Asks.bind {σ α β : Type} {allowed : Request σ → Prop} {program : Program σ α}
    {next : α → Program σ β} (h : program.Asks allowed) (hnext : ∀ a, (next a).Asks allowed) :
    (program.bind next).Asks allowed := by
  induction program with
  | done outcome =>
      cases outcome with
      | error fault => trivial
      | ok a => exact hnext a
  | load safe requested rest ih => exact fun answer => ih answer (h answer)
  | ask request rest ih => exact ⟨h.1, fun answer => ih answer (h.2 answer)⟩

namespace Loader

variable {σ α β : Type} {executor : Executor σ}

/-- A program that begins with one loader ends with an outcome and leaves another loader. -/
inductive Runs (executor : Executor σ) :
    {α : Type} → Program σ α → Loader σ → Except Fault α → Loader σ → Prop
  | done {α : Type} (outcome : Except Fault α) (loader : Loader σ) :
      Runs executor (.done outcome) loader outcome loader
  | asked {α : Type} {request : Request σ} {next : request.Answer → Program σ α}
      {loader after : Loader σ} {outcome : Except Fault α}
      (rest : Runs executor (next (loader.answer request).1) (loader.answer request).2
        outcome after) :
      Runs executor (.ask request next) loader outcome after
  | settled {α : Type} {safe : Bool} {requested : String}
      {next : Except Fault Script.Value → Program σ α} {loader middle after : Loader σ}
      {given : Except Fault Script.Value} {outcome : Except Fault α}
      (verdict : loader.judge requested = (.settled given, middle))
      (rest : Runs executor (next (loader.report safe requested given)) middle outcome after) :
      Runs executor (.load safe requested next) loader outcome after
  | module {α : Type} {safe : Bool} {requested path : String}
      {next : Except Fault Script.Value → Program σ α} {loader entered inner after : Loader σ}
      {given : Except Fault Script.Value} {outcome : Except Fault α}
      (verdict : loader.judge requested = (.due path, entered))
      (body : Runs executor (executor path) (entered.enter path) given inner)
      (rest : Runs executor
        (next (loader.report safe requested
          (given.mapError (Fault.ofModule path entered.caller))))
        (inner.leave entered.searchPath) outcome after) :
      Runs executor (.load safe requested next) loader outcome after

/-- A program that begins with one loader comes to a moment at which the modules `active` are
running in it, newest first, the newest of them has a program left to do, and the loader is as
given. -/
inductive Reaches (executor : Executor σ) :
    {α : Type} → Program σ α → Loader σ → List String → {β : Type} → Program σ β → Loader σ → Prop
  | here {α : Type} (program : Program σ α) (loader : Loader σ) :
      Reaches executor program loader [] program loader
  | asked {α β : Type} {request : Request σ} {next : request.Answer → Program σ α}
      {loader now : Loader σ} {active : List String} {left : Program σ β}
      (rest : Reaches executor (next (loader.answer request).1) (loader.answer request).2
        active left now) :
      Reaches executor (.ask request next) loader active left now
  | settled {α β : Type} {safe : Bool} {requested : String}
      {next : Except Fault Script.Value → Program σ α} {loader middle now : Loader σ}
      {given : Except Fault Script.Value} {active : List String} {left : Program σ β}
      (verdict : loader.judge requested = (.settled given, middle))
      (rest : Reaches executor (next (loader.report safe requested given)) middle
        active left now) :
      Reaches executor (.load safe requested next) loader active left now
  | inside {α β : Type} {safe : Bool} {requested path : String}
      {next : Except Fault Script.Value → Program σ α} {loader entered now : Loader σ}
      {active : List String} {left : Program σ β}
      (verdict : loader.judge requested = (.due path, entered))
      (body : Reaches executor (executor path) (entered.enter path) active left now) :
      Reaches executor (.load safe requested next) loader (active ++ [path]) left now
  | returned {α β : Type} {safe : Bool} {requested path : String}
      {next : Except Fault Script.Value → Program σ α} {loader entered inner now : Loader σ}
      {given : Except Fault Script.Value} {active : List String} {left : Program σ β}
      (verdict : loader.judge requested = (.due path, entered))
      (body : Runs executor (executor path) (entered.enter path) given inner)
      (rest : Reaches executor
        (next (loader.report safe requested
          (given.mapError (Fault.ofModule path entered.caller))))
        (inner.leave entered.searchPath) active left now) :
      Reaches executor (.load safe requested next) loader active left now

/-! ### Calls by their verdict -/

section Calls

variable {execute : String → Loader σ → Run σ Script.Value} {safe : Bool}
  {requested path : String} {loader middle entered inner after : Loader σ}
  {given outcome : Except Fault Script.Value}

@[simp] theorem report_ok (value : Script.Value) :
    loader.report safe requested (.ok value) = .ok value := by
  cases safe <;> rfl

@[simp] theorem report_mapError_ok (f : Fault → Fault) (value : Script.Value) :
    loader.report safe requested ((Except.ok value).mapError f) = .ok value :=
  report_ok value

theorem exists_report_error (loader : Loader σ) (safe : Bool) (requested : String)
    (fault : Fault) :
    ∃ fault', loader.report safe requested (.error fault) = .error fault' := by
  cases safe with
  | false => exact ⟨fault, rfl⟩
  | true => exact ⟨_, rfl⟩

theorem callWith_of_settled (verdict : loader.judge requested = (.settled given, middle)) :
    callWith execute safe requested loader =
      some (loader.report safe requested given, middle) := by
  simp only [callWith, loadWith, verdict]

theorem callWith_of_due (verdict : loader.judge requested = (.due path, entered))
    (body : execute path (entered.enter path) = some (given, inner)) :
    callWith execute safe requested loader =
      some (loader.report safe requested
        (given.mapError (Fault.ofModule path entered.caller)),
        inner.leave entered.searchPath) := by
  simp only [callWith, loadWith, verdict, body]

theorem callWith_of_due_none (verdict : loader.judge requested = (.due path, entered))
    (body : execute path (entered.enter path) = none) :
    callWith execute safe requested loader = none := by
  simp only [callWith, loadWith, verdict, body]

/-- A call that ends was settled at once, or it ran a module to its end. -/
theorem callWith_cases (call : callWith execute safe requested loader = some (outcome, after)) :
    (∃ given, loader.judge requested = (.settled given, after) ∧
      outcome = loader.report safe requested given) ∨
    ∃ path entered given inner, loader.judge requested = (.due path, entered) ∧
      execute path (entered.enter path) = some (given, inner) ∧
      outcome = loader.report safe requested
        (given.mapError (Fault.ofModule path entered.caller)) ∧
      after = inner.leave entered.searchPath := by
  rcases verdict : loader.judge requested with ⟨given | path, middle⟩
  · rw [callWith_of_settled verdict] at call
    cases call
    exact .inl ⟨given, rfl, rfl⟩
  · rcases body : execute path (middle.enter path) with _ | ⟨given, inner⟩
    · rw [callWith_of_due_none verdict body] at call
      cases call
    · rw [callWith_of_due verdict body] at call
      cases call
      exact .inr ⟨path, middle, given, inner, rfl, body, rfl, rfl⟩

end Calls

/-! ### Bounded runs -/

/-- A bounded run that ends is a run, if modules that end within the bound do. -/
theorem runs_of_runWith {execute : String → Loader σ → Run σ Script.Value}
    (modules : ∀ path loader outcome after, execute path loader = some (outcome, after) →
      Runs executor (executor path) loader outcome after)
    {program : Program σ α} {loader after : Loader σ} {outcome : Except Fault α}
    (run : runWith (callWith execute) program loader = some (outcome, after)) :
    Runs executor program loader outcome after := by
  induction program generalizing loader with
  | done result =>
      cases run
      exact .done _ _
  | ask request next ih => exact .asked (ih _ run)
  | load safe requested next ih =>
      rw [runWith] at run
      rcases call : callWith execute safe requested loader with _ | ⟨result, middle⟩
      · rw [call] at run
        cases run
      · simp only [call] at run
        obtain ⟨given, verdict, rfl⟩ | ⟨path, entered, given, inner, verdict, body, rfl, rfl⟩ :=
          callWith_cases call
        · exact .settled verdict (ih _ run)
        · exact .module verdict (modules _ _ _ _ body) (ih _ run)

theorem runs_of_execute {depth : Nat} {path : String} {loader after : Loader σ}
    {outcome : Except Fault Script.Value}
    (run : execute executor depth path loader = some (outcome, after)) :
    Runs executor (executor path) loader outcome after := by
  induction depth generalizing path loader outcome after with
  | zero => cases run
  | succ depth ih => exact runs_of_runWith (fun _ _ _ _ => ih) run

theorem runs_of_run {depth : Nat} {program : Program σ α} {loader after : Loader σ}
    {outcome : Except Fault α} (run : loader.run executor depth program = some (outcome, after)) :
    Runs executor program loader outcome after :=
  runs_of_runWith (fun _ _ _ _ => runs_of_execute) run

/-- A call that ends is a run of the program that does nothing else. -/
theorem runs_of_call {depth : Nat} {safe : Bool} {requested : String} {loader after : Loader σ}
    {outcome : Except Fault Script.Value}
    (call : callWith (execute executor depth) safe requested loader = some (outcome, after)) :
    Runs executor (.call safe requested) loader outcome after := by
  have hrun : loader.run executor depth (.call safe requested) = some (outcome, after) := by
    simp only [run, Program.call, runWith, call]
  exact runs_of_run hrun

/-- A run needs some depth, and any greater one gives the same result. -/
theorem Runs.exists_depth {program : Program σ α} {loader after : Loader σ}
    {outcome : Except Fault α} (runs : Runs executor program loader outcome after) :
    ∃ least, ∀ depth, least ≤ depth →
      loader.run executor depth program = some (outcome, after) := by
  induction runs with
  | done outcome loader => exact ⟨0, fun _ _ => rfl⟩
  | asked _ ih => exact ih
  | settled verdict _ ih =>
      obtain ⟨least, h⟩ := ih
      refine ⟨least, fun depth hd => ?_⟩
      rw [run, runWith, callWith_of_settled verdict]
      exact h depth hd
  | module verdict _ _ body ih =>
      obtain ⟨least, h⟩ := ih
      obtain ⟨least', h'⟩ := body
      refine ⟨max least (least' + 1), fun depth hd => ?_⟩
      -- the module runs one level deeper than the program that loads it
      obtain ⟨depth, rfl⟩ := Nat.exists_eq_add_of_le' (show 1 ≤ depth by omega)
      rw [run, runWith, callWith_of_due verdict (h' depth (by omega))]
      exact h (depth + 1) (by omega)

theorem runs_iff_exists_depth {program : Program σ α} {loader after : Loader σ}
    {outcome : Except Fault α} :
    Runs executor program loader outcome after ↔
      ∃ depth, loader.run executor depth program = some (outcome, after) := by
  constructor
  · intro runs
    obtain ⟨least, h⟩ := runs.exists_depth
    exact ⟨least, h least (Nat.le_refl _)⟩
  · rintro ⟨depth, run⟩
    exact runs_of_run run

/-- A program ends in one way only. -/
theorem Runs.unique {program : Program σ α} {loader after after' : Loader σ}
    {outcome outcome' : Except Fault α} (runs : Runs executor program loader outcome after)
    (runs' : Runs executor program loader outcome' after') :
    outcome = outcome' ∧ after = after' := by
  obtain ⟨least, h⟩ := runs.exists_depth
  obtain ⟨least', h'⟩ := runs'.exists_depth
  have heq : some (outcome, after) = some (outcome', after') :=
    (h (max least least') (Nat.le_max_left _ _)).symm.trans
      (h' (max least least') (Nat.le_max_right _ _))
  cases heq
  exact ⟨rfl, rfl⟩

/-- The last moment of a run that ends. -/
theorem Runs.reaches {program : Program σ α} {loader after : Loader σ}
    {outcome : Except Fault α} (runs : Runs executor program loader outcome after) :
    Reaches executor program loader [] (.done outcome) after := by
  induction runs with
  | done outcome loader => exact .here _ _
  | asked _ ih => exact .asked ih
  | settled verdict _ ih => exact .settled verdict ih
  | module verdict body _ _ ih => exact .returned verdict body ih

/-! ### Loads that end well -/

theorem eq_ok_of_mapError {ε δ : Type} {given : Except ε α} {f : ε → δ} {a : α}
    (h : given.mapError f = .ok a) : given = .ok a := by
  cases given with
  | ok given =>
      cases h
      rfl
  | error fault => cases h

/-- A program that cannot go on after a failed load went on after a good one. -/
theorem ok_of_report {next : Except Fault Script.Value → Program σ α}
    (pass : ∀ fault, ∃ fault', next (.error fault) = .done (.error fault'))
    {loader middle after : Loader σ} {safe : Bool} {requested : String}
    {given : Except Fault Script.Value} {a : α}
    (rest : Runs executor (next (loader.report safe requested given)) middle (.ok a) after) :
    ∃ value, given = .ok value := by
  cases given with
  | ok value => exact ⟨value, rfl⟩
  | error fault =>
      obtain ⟨reported, hreported⟩ := exists_report_error loader safe requested fault
      obtain ⟨final, hfinal⟩ := pass reported
      rw [hreported, hfinal] at rest
      cases rest

/-- If it has more to do than to end with a fault, then the load before was a good one. -/
theorem ok_of_report_of_reaches {next : Except Fault Script.Value → Program σ α}
    (pass : ∀ fault, ∃ fault', next (.error fault) = .done (.error fault'))
    {loader middle now : Loader σ} {safe : Bool} {requested : String}
    {given : Except Fault Script.Value} {active : List String} {left : Program σ β}
    (going : ∀ fault, left ≠ .done (.error fault))
    (rest : Reaches executor (next (loader.report safe requested given)) middle active left now) :
    ∃ value, given = .ok value := by
  cases given with
  | ok value => exact ⟨value, rfl⟩
  | error fault =>
      obtain ⟨reported, hreported⟩ := exists_report_error loader safe requested fault
      obtain ⟨final, hfinal⟩ := pass reported
      rw [hreported, hfinal] at rest
      cases rest
      exact (going final rfl).elim

/-- A call was settled at once, or it ran a module. What it reports is all that it gives. -/
theorem Runs.of_call {safe : Bool} {requested : String} {loader after : Loader σ}
    {outcome : Except Fault Script.Value}
    (runs : Runs executor (.call safe requested) loader outcome after) :
    (∃ given, loader.judge requested = (.settled given, after) ∧
      outcome = loader.report safe requested given) ∨
    ∃ path entered given inner, loader.judge requested = (.due path, entered) ∧
      Runs executor (executor path) (entered.enter path) given inner ∧
      outcome = loader.report safe requested
        (given.mapError (Fault.ofModule path entered.caller)) ∧
      after = inner.leave entered.searchPath := by
  cases runs with
  | settled verdict rest =>
      cases rest
      exact .inl ⟨_, verdict, rfl⟩
  | module verdict body rest =>
      cases rest
      exact .inr ⟨_, _, _, _, verdict, body, rfl, rfl⟩

theorem ok_of_report_eq {loader : Loader σ} {safe : Bool} {requested : String}
    {given : Except Fault Script.Value} {value : Script.Value}
    (h : .ok value = loader.report safe requested given) : given = .ok value := by
  cases safe with
  | false => exact h.symm
  | true => exact eq_ok_of_mapError h.symm

/-- A call that ends well was settled so, or it ran a module that ended so. -/
theorem Runs.of_call_ok {safe : Bool} {requested : String} {loader after : Loader σ}
    {value : Script.Value} (runs : Runs executor (.call safe requested) loader (.ok value) after) :
    loader.judge requested = (.settled (.ok value), after) ∨
    ∃ path entered inner, loader.judge requested = (.due path, entered) ∧
      Runs executor (executor path) (entered.enter path) (.ok value) inner ∧
      after = inner.leave entered.searchPath := by
  obtain ⟨given, verdict, h⟩ | ⟨path, entered, given, inner, verdict, body, h, rfl⟩ := runs.of_call
  · obtain rfl := ok_of_report_eq h
    exact .inl verdict
  · obtain rfl := eq_ok_of_mapError (ok_of_report_eq h)
    exact .inr ⟨path, entered, inner, verdict, body, rfl⟩

/-! ### Programs one after the other -/

/-- A program that goes on with another one ran to its end before that, or it failed. -/
theorem Runs.of_bind {program : Program σ α} {next : α → Program σ β} {loader after : Loader σ}
    {outcome : Except Fault β} (runs : Runs executor (program.bind next) loader outcome after) :
    (∃ a middle, Runs executor program loader (.ok a) middle ∧
      Runs executor (next a) middle outcome after) ∨
    ∃ fault, Runs executor program loader (.error fault) after ∧ outcome = .error fault := by
  induction program generalizing loader with
  | done result =>
      cases result with
      | ok a => exact .inl ⟨a, loader, .done _ _, runs⟩
      | error fault =>
          cases runs
          exact .inr ⟨fault, .done _ _, rfl⟩
  | ask request rest ih =>
      cases runs with
      | asked runs =>
          obtain ⟨a, middle, hfirst, hnext⟩ | ⟨fault, hfirst, rfl⟩ := ih _ runs
          · exact .inl ⟨a, middle, .asked hfirst, hnext⟩
          · exact .inr ⟨fault, .asked hfirst, rfl⟩
  | load safe requested rest ih =>
      cases runs with
      | settled verdict runs =>
          obtain ⟨a, middle, hfirst, hnext⟩ | ⟨fault, hfirst, rfl⟩ := ih _ runs
          · exact .inl ⟨a, middle, .settled verdict hfirst, hnext⟩
          · exact .inr ⟨fault, .settled verdict hfirst, rfl⟩
      | module verdict body runs =>
          obtain ⟨a, middle, hfirst, hnext⟩ | ⟨fault, hfirst, rfl⟩ := ih _ runs
          · exact .inl ⟨a, middle, .module verdict body hfirst, hnext⟩
          · exact .inr ⟨fault, .module verdict body hfirst, rfl⟩

/-- The moments of what comes after a program are moments of the whole. -/
theorem Reaches.bind {program : Program σ α} {next : α → Program σ β} {loader middle now : Loader σ}
    {outcome : Except Fault α} {a : α} (runs : Runs executor program loader outcome middle)
    (ok : outcome = .ok a) {γ : Type} {active : List String} {left : Program σ γ}
    (reaches : Reaches executor (next a) middle active left now) :
    Reaches executor (program.bind next) loader active left now := by
  induction runs with
  | done outcome loader =>
      subst ok
      exact reaches
  | asked rest ih => exact .asked (ih ok reaches)
  | settled verdict rest ih => exact .settled verdict (ih ok reaches)
  | module verdict body rest _ ih => exact .returned verdict body (ih ok reaches)

/-- From a moment at which no module is active, the run of a program goes on with what is left. The
kind of its outcome is that of the whole program's. -/
theorem Reaches.runs_left {program : Program σ α} {loader now after : Loader σ}
    {active : List String} {left : Program σ β} {outcome : Except Fault α}
    (reaches : Reaches executor program loader active left now) (top : active = [])
    (runs : Runs executor program loader outcome after) :
    ∃ outcome' : Except Fault β, HEq outcome outcome' ∧ Runs executor left now outcome' after := by
  induction reaches with
  | here program loader => exact ⟨outcome, HEq.rfl, runs⟩
  | asked _ ih =>
      cases runs with
      | asked runs => exact ih top runs
  | settled verdict _ ih =>
      cases runs with
      | settled verdict' runs =>
          cases verdict.symm.trans verdict'
          exact ih top runs
      | module verdict' _ _ => cases verdict.symm.trans verdict'
  | inside _ _ _ => exact (List.append_ne_nil_of_right_ne_nil _ (List.cons_ne_nil _ _) top).elim
  | returned verdict body _ ih =>
      cases runs with
      | settled verdict' _ => cases verdict.symm.trans verdict'
      | module verdict' body' runs =>
          cases verdict.symm.trans verdict'
          obtain ⟨rfl, rfl⟩ := body.unique body'
          exact ih top runs

theorem Runs.of_reaches {program left : Program σ α} {loader now after : Loader σ}
    {outcome : Except Fault α} (runs : Runs executor program loader outcome after)
    (reaches : Reaches executor program loader [] left now) :
    Runs executor left now outcome after := by
  obtain ⟨outcome', heq, hleft⟩ := reaches.runs_left rfl runs
  rwa [eq_of_heq heq]

/-! ### What loading keeps -/

/-- A relation between an earlier and a later loader that holds across every step of a program
whose requests are of one kind, and across every module that is run in it. -/
structure Kept (allowed : Request σ → Prop) (R : Loader σ → Loader σ → Prop) : Prop where
  refl : ∀ loader, R loader loader
  trans : ∀ {first second third}, R first second → R second third → R first third
  answer : ∀ loader request, allowed request → R loader (loader.answer request).2
  settled : ∀ {loader requested given middle},
    loader.judge requested = (.settled given, middle) → R loader middle
  module : ∀ {loader requested path entered inner},
    loader.judge requested = (.due path, entered) → R (entered.enter path) inner →
      R loader (inner.leave entered.searchPath)

variable {allowed : Request σ → Prop} {R : Loader σ → Loader σ → Prop}

theorem Runs.kept {program : Program σ α} {loader after : Loader σ} {outcome : Except Fault α}
    (runs : Runs executor program loader outcome after) (kept : Kept allowed R)
    (modules : ∀ path, (executor path).Asks allowed) (asks : program.Asks allowed) :
    R loader after := by
  induction runs with
  | done outcome loader => exact kept.refl loader
  | asked _ ih => exact kept.trans (kept.answer _ _ asks.1) (ih (asks.2 _))
  | settled verdict _ ih => exact kept.trans (kept.settled verdict) (ih (asks _))
  | module verdict _ _ body ih =>
      exact kept.trans (kept.module verdict (body (modules _))) (ih (asks _))

/-- The same for every moment of a run, if the relation also holds across the beginning of a
module. -/
theorem Reaches.kept {program : Program σ α} {loader now : Loader σ} {active : List String}
    {left : Program σ β} (reaches : Reaches executor program loader active left now)
    (kept : Kept allowed R)
    (enter : ∀ {loader requested path entered},
      loader.judge requested = (.due path, entered) → R loader (entered.enter path))
    (modules : ∀ path, (executor path).Asks allowed) (asks : program.Asks allowed) :
    R loader now := by
  induction reaches with
  | here program loader => exact kept.refl loader
  | asked _ ih => exact kept.trans (kept.answer _ _ asks.1) (ih (asks.2 _))
  | settled verdict _ ih => exact kept.trans (kept.settled verdict) (ih (asks _))
  | inside verdict _ ih => exact kept.trans (enter verdict) (ih (modules _))
  | returned verdict body _ ih =>
      have inner := body.kept kept modules (modules _)
      exact kept.trans (kept.module verdict inner) (ih (asks _))

theorem kept_journal :
    Kept (fun (_ : Request σ) => True) fun before after => before.journal <:+ after.journal where
  refl _ := List.suffix_rfl
  trans := List.IsSuffix.trans
  answer loader request _ := journal_suffix_answer loader request
  settled := journal_suffix_judge
  module verdict body :=
    ((journal_suffix_judge verdict).trans (List.suffix_cons _ _)).trans body

/-- A run only adds to the journal. -/
theorem Runs.journal_suffix {program : Program σ α} {loader after : Loader σ}
    {outcome : Except Fault α} (runs : Runs executor program loader outcome after) :
    loader.journal <:+ after.journal :=
  runs.kept kept_journal (fun path => (executor path).asks_true) program.asks_true

/-- If a module ends that was due, its start is in the journal. -/
theorem started_mem_of_body {requested path : String} {loader entered inner : Loader σ}
    {given : Except Fault Script.Value} {events : List Event}
    (verdict : loader.judge requested = (.due path, entered))
    (body : Runs executor (executor path) (entered.enter path) given inner)
    (journal : inner.journal = events ++ loader.journal) :
    .started path (entered.stack.depth + 1) ∈ events := by
  -- the start is between what was noted on the way to it and what the module adds
  obtain ⟨later, hlater⟩ := body.journal_suffix
  obtain ⟨earlier, hearlier⟩ := journal_suffix_judge verdict
  have heq : events ++ loader.journal =
      (later ++ .started path (entered.stack.depth + 1) :: earlier) ++ loader.journal := by
    rw [List.append_assoc, List.cons_append, hearlier]
    exact journal.symm.trans hlater.symm
  rw [List.append_cancel_right heq]
  simp

/-- If a call ends that had to run a module, the start of the module is in the journal. -/
theorem started_mem_of_due {depth : Nat} {safe : Bool} {requested path : String}
    {loader entered after : Loader σ} {outcome : Except Fault Script.Value}
    {events : List Event} (verdict : loader.judge requested = (.due path, entered))
    (call : callWith (execute executor depth) safe requested loader = some (outcome, after))
    (journal : after.journal = events ++ loader.journal) :
    .started path (entered.stack.depth + 1) ∈ events := by
  obtain ⟨given, h, -⟩ | ⟨path', entered', given, inner, h, body, -, rfl⟩ := callWith_cases call
  · cases verdict.symm.trans h
  · cases verdict.symm.trans h
    exact started_mem_of_body verdict (runs_of_execute body) journal

end Loader

end ScriptLoader
