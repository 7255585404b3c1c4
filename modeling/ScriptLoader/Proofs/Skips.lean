import ScriptLoader.Proofs.Faults
import ScriptLoader.Proofs.Injection
import ScriptLoader.Proofs.Termination

/-!
What a load gives whose module was up to date, and who else gives it. Skipped is a value like
others: scripts bind names to it and return it. So a load gives it if its module was not begun, or
if the script that was begun hands it on. It comes into the world only through loads that begin
nothing.
-/

namespace ScriptLoader

namespace Script

variable {file : Option String}

/-! ### What scripts make of values -/

def Host.Clean (host : Host) : Prop :=
  ∀ name, host.value? name ≠ some .skipped

theorem Host.clean_empty : Host.empty.Clean := by
  intro name h
  cases h

theorem Host.Clean.define {host : Host} (h : host.Clean) {value : Value} (hvalue : value ≠ .skipped)
    (name : String) : (host.define name value).Clean := by
  intro other hother
  by_cases heq : other = name
  · subst heq
    exact hvalue (by simpa using hother)
  · exact h other (by simpa [heq] using hother)

@[simp] theorem Value.isSkipped_iff {value : Value} :
    value.isSkipped = true ↔ value = .skipped := by
  cases value <;> simp [isSkipped]

theorem Value.ne_skipped_of_add {left right value : Value} {site : Site}
    (h : left.add site right = .ok value) : value ≠ .skipped := by
  unfold Value.add at h
  split at h
  · rename_i m n
    rcases hsum : (m.add n).mapError TooLarge.fault with fault | sum
    · rw [hsum] at h
      cases h
    · rw [hsum] at h
      cases h
      exact fun hskipped => by cases hskipped
  · cases h
    exact fun hskipped => by cases hskipped
  · cases h

end Script

namespace Program

open Script (Host Value)

variable {α β : Type} {good : α → Prop}

/-- A program that does not make a skipped by itself: as long as no load gives it one and no name is
bound to it, it binds no name to it, and it ends with something good. -/
def Genuine (good : α → Prop) : Program Host α → Prop
  | .done (.ok a) => good a
  | .done (.error _) => True
  | .load _ _ next => ∀ answer, answer ≠ .ok .skipped → (next answer).Genuine good
  | .ask request next => ∀ loader : Loader Host, loader.host.Clean →
      (loader.answer request).2.host.Clean ∧ (next (loader.answer request).1).Genuine good

theorem genuine_done {outcome : Except Fault α} (h : ∀ a, outcome = .ok a → good a) :
    (.done outcome : Program Host α).Genuine good := by
  cases outcome with
  | error fault => trivial
  | ok a => exact h a rfl

theorem Genuine.bind {good' : β → Prop} {program : Program Host α} {next : α → Program Host β}
    (h : program.Genuine good) (hnext : ∀ a, good a → (next a).Genuine good') :
    (program.bind next).Genuine good' := by
  induction program with
  | done outcome =>
      cases outcome with
      | error fault => trivial
      | ok a => exact hnext a h
  | load safe requested rest ih => exact fun answer hanswer => ih answer (h answer hanswer)
  | ask request rest ih =>
      intro loader hclean
      obtain ⟨hhost, hrest⟩ := h loader hclean
      exact ⟨hhost, ih _ hrest⟩

theorem genuine_call (safe : Bool) (requested : String) :
    (call safe requested : Program Host Value).Genuine (· ≠ .skipped) := by
  intro answer hanswer
  exact genuine_done fun value heq hskipped => hanswer (by rw [heq, hskipped])

theorem genuine_modifyHost {change : Host → Host} (h : ∀ host, host.Clean → (change host).Clean) :
    (modifyHost change).Genuine fun _ => True :=
  fun _ hclean => ⟨hclean, fun _ _ => ⟨h _ hclean, trivial⟩⟩

end Program

namespace Script

theorem Expr.genuine_evaluate (file : Option String) (expr : Expr Numeral CodePoints) :
    (expr.evaluate file).Genuine (· ≠ .skipped) := by
  induction expr with
  | name identifier line =>
      have hhost : (Program.query (σ := Host) .host).Genuine Host.Clean :=
        fun _ hclean => ⟨hclean, hclean⟩
      refine hhost.bind fun host hclean => ?_
      rcases hbound : host.value? identifier with _ | value
      · trivial
      · exact fun hskipped => hclean identifier (by rw [hbound, hskipped])
  | call request => exact Program.genuine_call _ _
  | add left right hleft hright =>
      refine hleft.bind fun a _ => hright.bind fun b _ => ?_
      exact Program.genuine_done fun value h => Value.ne_skipped_of_add h
  | number _ _ | text _ _ | boolean _ _ | nil _ => exact fun hskipped => by cases hskipped

theorem Statement.genuine_perform (file : Option String)
    (statement : Statement Numeral CodePoints) :
    (statement.perform file).Genuine fun _ => True := by
  cases statement with
  | assign target value line =>
      refine (value.genuine_evaluate file).bind fun v hv => ?_
      exact Program.genuine_modifyHost fun host hclean => hclean.define hv target
  | print value line =>
      refine (value.genuine_evaluate file).bind fun v _ => ?_
      refine Program.Genuine.bind (Program.genuine_done fun _ _ => trivial) fun text _ => ?_
      refine Program.Genuine.bind (Program.genuine_done fun _ _ => trivial) fun line _ => ?_
      exact Program.genuine_modifyHost fun host hclean => hclean
  | «return» value line => trivial
  | fail value line =>
      refine (value.genuine_evaluate file).bind fun v _ => ?_
      exact Program.Genuine.bind (Program.genuine_done fun _ _ => trivial) fun message _ => trivial
  | call request => exact (Program.genuine_call _ _).bind fun v _ => trivial

theorem genuine_runStatements (file : Option String)
    (statements : List (Statement Numeral CodePoints)) :
    (runStatements file statements).Genuine (· ≠ .skipped) := by
  induction statements with
  | nil => exact fun hskipped => by cases hskipped
  | cons statement rest ih =>
      cases statement with
      | «return» value line => exact value.genuine_evaluate file
      | _ => exact (Statement.genuine_perform file _).bind fun _ _ => ih

theorem genuine_executor (path : String) : (executor path).Genuine (· ≠ .skipped) := by
  have hread : (Program.query (σ := Host) (.read path)).Genuine fun _ => True :=
    fun _ hclean => ⟨hclean, trivial⟩
  refine hread.bind fun answer _ => ?_
  cases answer with
  | error error => trivial
  | ok bytes =>
      refine Program.Genuine.bind (Program.genuine_done fun _ _ => trivial) fun script _ => ?_
      exact genuine_runStatements _ _

/-! ### Where skipped comes from -/

section Runs

open Loader

variable {α : Type} {loader middle entered after : Loader Host} {safe : Bool}
  {requested path : String} {value : Value}

def SkippedSince (before after : Loader Host) : Prop :=
  ∃ later path earlier, after.journal = later ++ .skipped path :: earlier ∧
    before.journal <:+ earlier

theorem SkippedSince.of_suffix {before : Loader Host} (h : SkippedSince before middle)
    (suffix : middle.journal <:+ after.journal) : SkippedSince before after := by
  obtain ⟨later, path, earlier, hmiddle, hbefore⟩ := h
  obtain ⟨more, hafter⟩ := suffix
  exact ⟨more ++ later, path, earlier, by rw [← hafter, hmiddle, List.append_assoc], hbefore⟩

theorem SkippedSince.of_before {before : Loader Host} (suffix : before.journal <:+ middle.journal)
    (h : SkippedSince middle after) : SkippedSince before after := by
  obtain ⟨later, path, earlier, hafter, hmiddle⟩ := h
  exact ⟨later, path, earlier, hafter, suffix.trans hmiddle⟩

/-- A load that is settled well is one that was skipped. -/
theorem skipped_of_settled (verdict : loader.judge requested = (.settled (.ok value), middle)) :
    value = .skipped ∧ SkippedSince loader middle := by
  cases judged verdict with
  | @upToDate path signature remarks checks same hr =>
      exact ⟨rfl, [], path, _, rfl, journal_suffix_recorded loader path (some signature) remarks⟩

theorem report_ne_skipped {given : Except Fault Value} (h : given ≠ .ok .skipped) :
    loader.report safe requested given ≠ .ok .skipped := by
  cases given with
  | error fault =>
      obtain ⟨reported, hreported⟩ := exists_report_error loader safe requested fault
      rw [hreported]
      exact fun heq => by cases heq
  | ok value =>
      rwa [report_ok]

/-- If a program does not make a skipped by itself, and no module does, then it gets one only from a
load that was skipped. -/
theorem skippedSince_or_good {program : Program Host α} {outcome : Except Fault α}
    (runs : Runs executor program loader outcome after) {good : α → Prop}
    (genuine : program.Genuine good) (clean : loader.host.Clean) :
    SkippedSince loader after ∨ (after.host.Clean ∧ ∀ a, outcome = .ok a → good a) := by
  induction runs with
  | done outcome loader =>
      refine .inr ⟨clean, fun a hok => ?_⟩
      subst hok
      exact genuine
  | @asked _ request next loader after outcome rest ih =>
      obtain ⟨hclean, hnext⟩ := genuine loader clean
      exact (ih hnext hclean).imp_left (.of_before (journal_suffix_answer loader request))
  | @settled _ safe requested next loader middle after given outcome verdict rest ih =>
      cases given with
      | ok value => exact .inl ((skipped_of_settled verdict).2.of_suffix rest.journal_suffix)
      | error fault =>
          have hgiven : loader.report safe requested (.error fault) ≠ .ok .skipped :=
            report_ne_skipped fun heq => by cases heq
          rw [← host_judge verdict] at clean
          exact (ih (genuine _ hgiven) clean).imp_left (.of_before (journal_suffix_judge verdict))
  | @module _ safe requested path next loader entered inner after given outcome verdict body rest
      ihbody ihrest =>
      have hentered : loader.journal <:+ (entered.enter path).journal :=
        (journal_suffix_judge verdict).trans (List.suffix_cons _ _)
      have hinner : loader.journal <:+ (inner.leave entered.searchPath).journal :=
        hentered.trans body.journal_suffix
      have hclean : (entered.enter path).host.Clean := by
        show entered.host.Clean
        rwa [host_judge verdict]
      obtain hskipped | ⟨hclean, hgiven⟩ := ihbody (genuine_executor path) hclean
      · exact .inl (.of_before hentered (hskipped.of_suffix rest.journal_suffix))
      · have hreport : loader.report safe requested
            (given.mapError (Fault.ofModule path entered.caller)) ≠ .ok .skipped := by
          refine report_ne_skipped fun heq => ?_
          exact hgiven .skipped (eq_ok_of_mapError heq) rfl
        exact (ihrest (genuine _ hreport) hclean).imp_left (.of_before hinner)

/-! ### What a script returns -/

/-- An expression gives skipped as it got it: a name is bound to it, or a load gives it. -/
inductive HandsOn (now : Loader Host) : Expr Numeral CodePoints → Prop
  | name {identifier : String} {line : Nat}
      (bound : now.host.value? identifier = some .skipped) : HandsOn now (.name identifier line)
  | call {request : Call CodePoints} {after : Loader Host}
      (given : Runs executor (.call request.safe request.path.fileName) now (.ok .skipped) after) :
      HandsOn now (.call request)

theorem value?_of_runs {file : Option String} {identifier : String} {line : Nat}
    (runs : Runs executor ((Expr.name identifier line).evaluate file) loader (.ok value) after) :
    loader.host.value? identifier = some value := by
  cases runs with
  | asked rest =>
      simp only [answer, Program.done_ok_bind] at rest
      rcases hbound : loader.host.value? identifier with _ | bound
      · rw [hbound] at rest
        cases rest
      · rw [hbound] at rest
        cases rest
        rfl

theorem handsOn_iff {file : Option String} {expr : Expr Numeral CodePoints}
    (runs : Runs executor (expr.evaluate file) loader (.ok value) after) :
    HandsOn loader expr ↔ value = .skipped := by
  constructor
  · intro handsOn
    cases handsOn with
    | name bound =>
        cases bound.symm.trans (value?_of_runs runs)
        rfl
    | call given =>
        cases (runs.unique given).1
        rfl
  · rintro rfl
    cases expr with
    | name identifier line => exact .name (value?_of_runs runs)
    | call request => exact .call runs
    | add left right =>
        -- a sum is a number or a text
        obtain ⟨a, _, -, rest⟩ | ⟨_, -, hfault⟩ := runs.of_bind
        · obtain ⟨b, _, -, rest⟩ | ⟨_, -, hfault⟩ := rest.of_bind
          · generalize hsum : a.add ⟨file, some left.line⟩ b = sum at rest
            cases rest
            exact (Value.ne_skipped_of_add hsum rfl).elim
          · cases hfault
        · cases hfault
    | number _ _ => cases runs
    | text _ _ => cases runs
    | boolean _ _ => cases runs
    | nil _ => cases runs

/-- A program comes, in a script of a file, to a `return` that hands a skipped on. -/
def ReturnsSkipped (file : Option String) (program : Program Host Value)
    (loader : Loader Host) : Prop :=
  ∃ expr line rest now,
    Reaches executor program loader [] (runStatements file (.return expr line :: rest)) now ∧
      HandsOn now expr

theorem returnsSkipped_of_statements {file : Option String}
    {statements : List (Statement Numeral CodePoints)}
    (runs : Runs executor (runStatements file statements) loader (.ok .skipped) after) :
    ReturnsSkipped file (runStatements file statements) loader := by
  induction statements generalizing loader with
  | nil => cases runs
  | cons statement rest ih =>
      -- other statements than a `return` are carried out before the rest
      have later (hrest : runStatements file (statement :: rest) =
          (statement.perform file).bind fun _ => runStatements file rest) :
          ReturnsSkipped file (runStatements file (statement :: rest)) loader := by
        rw [hrest] at runs ⊢
        obtain ⟨_, middle, hfirst, hnext⟩ | ⟨_, -, hfault⟩ := runs.of_bind
        · obtain ⟨expr, line, others, now, reaches, handsOn⟩ := ih hnext
          exact ⟨expr, line, others, now, .bind hfirst rfl reaches, handsOn⟩
        · cases hfault
      cases statement with
      | «return» value line =>
          exact ⟨value, line, rest, loader, .here _ _, (handsOn_iff runs).mpr rfl⟩
      | assign target value line => exact later rfl
      | print value line => exact later rfl
      | fail value line => exact later rfl
      | call request => exact later rfl

/-- A module gives skipped if its script hands one on, and only then. -/
theorem returnsSkipped_iff {inner : Loader Host}
    (runs : Runs executor (executor path) loader (.ok value) inner) :
    ReturnsSkipped (some path) (executor path) loader ↔ value = .skipped := by
  constructor
  · rintro ⟨expr, line, rest, now, reaches, handsOn⟩
    have hreturn : Runs executor (expr.evaluate (some path)) now (.ok value) inner :=
      runs.of_reaches reaches
    exact (handsOn_iff hreturn).mp handsOn
  · rintro rfl
    have hread : executor path = (Program.query (.read path)).bind _ := rfl
    rw [hread] at runs ⊢
    obtain ⟨answer, middle, hfirst, hnext⟩ | ⟨_, -, hfault⟩ := runs.of_bind
    · cases answer with
      | error error => cases hnext
      | ok bytes =>
          replace hnext : Runs executor ((Program.done (ofBytes path bytes)).bind run) middle
            (.ok .skipped) inner := hnext
          rcases hscript : ofBytes path bytes with fault | script
          · rw [hscript] at hnext
            cases hnext
          · have hfile := file_of_ofBytes hscript
            replace hnext : Runs executor (run script) middle (.ok .skipped) inner := by
              rwa [hscript] at hnext
            rw [run, hfile] at hnext
            obtain ⟨expr, line, rest, now, reaches, handsOn⟩ := returnsSkipped_of_statements hnext
            refine ⟨expr, line, rest, now, .bind hfirst rfl ?_, handsOn⟩
            show Reaches executor ((Program.done (ofBytes path bytes)).bind run) _ _ _ _
            rw [hscript, Program.done_ok_bind, run, hfile]
            exact reaches
    · cases hfault

/-! ### Calls -/

/-- The module that a call asks for is begun by the call itself: the start is noted at the depth of
the call, and not deeper. -/
def Begins (loader : Loader Host) (requested : String) (events : List Event) : Prop :=
  ∃ path, loader.target requested = .ok path ∧
    .started path (loader.stack.depth + 1) ∈ events

def PassesOn (loader : Loader Host) (requested : String) : Prop :=
  ∃ path entered, loader.judge requested = (.due path, entered) ∧
    ReturnsSkipped (some path) (executor path) (entered.enter path)

theorem not_begins_of_settled {given : Except Fault Value} {events : List Event}
    (verdict : loader.judge requested = (.settled given, after))
    (journal : after.journal = events ++ loader.journal) : ¬Begins loader requested events := by
  rintro ⟨path, -, hmem⟩
  obtain ⟨quiet, hjournal, hquiet⟩ := startedPaths_judge verdict
  obtain rfl : events = quiet := List.append_cancel_right (journal.symm.trans hjournal)
  have hstarted : path ∈ startedPaths events := List.mem_filterMap.mpr ⟨_, hmem, rfl⟩
  rw [hquiet] at hstarted
  cases hstarted

theorem begins_of_due {depth : Nat} {outcome : Except Fault Value} {events : List Event}
    (verdict : loader.judge requested = (.due path, entered))
    (call : callWith (execute Script.executor depth) safe requested loader = some (outcome, after))
    (journal : after.journal = events ++ loader.journal) : Begins loader requested events := by
  have hstarted := started_mem_of_due verdict call journal
  rw [(samePaths_judge verdict).stack] at hstarted
  exact ⟨path, target_of_due verdict, hstarted⟩

theorem skipped_iff {depth : Nat} {events : List Event}
    (call : callWith (execute Script.executor depth) safe requested loader =
      some (.ok value, after))
    (journal : after.journal = events ++ loader.journal) :
    value = .skipped ↔ ¬Begins loader requested events ∨ PassesOn loader requested := by
  obtain verdict | ⟨path, entered, inner, verdict, body, -⟩ := (runs_of_call call).of_call_ok
  · have hskipped := (skipped_of_settled verdict).1
    exact iff_of_true hskipped (.inl (not_begins_of_settled verdict journal))
  · have hbegins := begins_of_due verdict call journal
    rw [← returnsSkipped_iff body]
    constructor
    · exact fun returns => .inr ⟨path, entered, verdict, returns⟩
    · rintro (hnot | ⟨path', entered', verdict', returns⟩)
      · exact (hnot hbegins).elim
      · cases verdict.symm.trans verdict'
        exact returns

theorem exists_skipped {depth : Nat} {events : List Event}
    (call : callWith (execute Script.executor depth) safe requested loader =
      some (.ok .skipped, after))
    (journal : after.journal = events ++ loader.journal) (clean : loader.host.Clean) :
    ∃ path, .skipped path ∈ events := by
  have hgenuine := Program.genuine_call safe requested
  obtain ⟨later, path, earlier, hafter, before, rfl⟩ | ⟨-, hgood⟩ :=
    skippedSince_or_good (runs_of_call call) hgenuine clean
  · rw [journal, ← List.cons_append, ← List.append_assoc] at hafter
    rw [List.append_cancel_right hafter]
    exact ⟨path, by simp⟩
  · exact (hgood .skipped rfl rfl).elim

/-- Whatever loader a load or a safe load of a script begins with, also one in the middle of a run:

* if it ends well, it gives skipped exactly if it has not begun the module that it asks for, or if
  the script that it has begun comes to a `return` of a load that gives skipped, or of a name that
  is bound to it;
* if no name was bound to skipped before, then it gives skipped only if it, or a load in it, found a
  module up to date. -/
theorem skipped_iff_not_begun_or_passedOn (loader : Loader Host) (requested : String)
    (depth : Nat) (safe : Bool) (value : Value) (after : Loader Host)
    (call : callWith (execute Script.executor depth) safe requested loader =
      some (.ok value, after)) :
    ∃ events, after.journal = events ++ loader.journal ∧
      (value = .skipped ↔ ¬Begins loader requested events ∨ PassesOn loader requested) ∧
      (loader.host.Clean → value = .skipped → ∃ path, .skipped path ∈ events) := by
  obtain ⟨events, hjournal⟩ := (runs_of_call call).journal_suffix
  refine ⟨events, hjournal.symm, skipped_iff call hjournal.symm, fun clean hskipped => ?_⟩
  subst hskipped
  exact exists_skipped call hjournal.symm clean

/-- `/a` binds a name to what the second load of `/b` gives, and returns it. -/
def passingLoader : Loader Host :=
  Loader.start ⟨⟨"/", "", []⟩, .build []
    [(["a"], .ofText "let x = load \"b\" let x = load \"b\" return x"), (["b"], .ofText "")]⟩
    .md5 [] .empty

theorem skipped_iff_not_begun_or_passedOn_passingLoader :
    ∃ after, callWith (execute Script.executor 3) true "/a" passingLoader =
        some (.ok .skipped, after) ∧
      Begins passingLoader "/a" after.journal ∧ PassesOn passingLoader "/a" ∧
      ∃ path, .skipped path ∈ after.journal := by
  have hcall : (callWith (execute Script.executor 3) true "/a" passingLoader).map
      (fun result => (result.1.toOption.map Value.isSkipped,
        decide (.started "/a" 1 ∈ result.2.journal))) = some (some true, true) := by
    decide +kernel
  obtain ⟨⟨outcome, after⟩, call, hresult⟩ := Option.map_eq_some_iff.mp hcall
  simp only [Prod.mk.injEq, decide_eq_true_eq] at hresult
  obtain ⟨hvalue, hstarted⟩ := hresult
  cases outcome with
  | error fault => cases hvalue
  | ok value =>
      obtain rfl : value = .skipped := Value.isSkipped_iff.mp (Option.some.inj hvalue)
      obtain ⟨events, hjournal, hskipped, hfound⟩ :=
        skipped_iff_not_begun_or_passedOn passingLoader "/a" 3 true .skipped after call
      obtain rfl : events = after.journal := by
        rw [hjournal]
        exact (List.append_nil events).symm
      have hbegins : Begins passingLoader "/a" after.journal := ⟨"/a", rfl, hstarted⟩
      have hpasses := (hskipped.mp rfl).resolve_left (not_not_intro hbegins)
      exact ⟨after, call, hbegins, hpasses, hfound Host.clean_empty rfl⟩

def selfLoader : Loader Host :=
  Loader.start ⟨⟨"/", "", []⟩, .build [] [(["a"], .ofText "return load \"/a\"")]⟩ .md5 [] .empty

/-- A load can give skipped although it has begun its module. -/
theorem not_skipped_iff_not_begun :
    ¬∀ (loader : Loader Host) (depth : Nat) (safe : Bool) (requested : String) (value : Value)
      (after : Loader Host) (events : List Event),
      callWith (execute Script.executor depth) safe requested loader = some (.ok value, after) →
      after.journal = events ++ loader.journal →
      (value = .skipped ↔ ¬Begins loader requested events) := by
  intro h
  have hcall : (callWith (execute Script.executor 3) false "/a" selfLoader).map
      (fun result => (result.1.toOption.map Value.isSkipped,
        decide (.started "/a" 1 ∈ result.2.journal))) = some (some true, true) := by
    decide +kernel
  obtain ⟨⟨outcome, after⟩, call, hresult⟩ := Option.map_eq_some_iff.mp hcall
  simp only [Prod.mk.injEq, decide_eq_true_eq] at hresult
  obtain ⟨hvalue, hstarted⟩ := hresult
  cases outcome with
  | error fault => cases hvalue
  | ok value =>
      have hskipped : value = .skipped := Value.isSkipped_iff.mp (Option.some.inj hvalue)
      have hnot := (h selfLoader 3 false "/a" value after after.journal call
        (List.append_nil _).symm).mp hskipped
      exact hnot ⟨"/a", rfl, hstarted⟩

end Runs

end Script

end ScriptLoader
