import ScriptLoader.Proofs.Faults
import ScriptLoader.Proofs.Termination

/-!
What loaded modules define. Scripts bind names and never free one, so the names of the host only
grow. A module that ends well has bound every name that its script binds before the first `return`.
A load that runs nothing rests on this: as long as no load has failed, every module on record either
is still active or has ended well.
-/

namespace ScriptLoader

namespace Script

/-- The names that a script binds, up to its first `return`. -/
def targets {ν τ : Type} : List (Statement ν τ) → List String
  | [] => []
  | .return _ _ :: _ => []
  | .assign target _ _ :: rest => target :: targets rest
  | _ :: rest => targets rest

namespace Host

def Defines (host : Host) (name : String) : Prop :=
  (host.value? name).isSome = true

def Grows (before after : Host) : Prop :=
  ∀ name, before.Defines name → after.Defines name

theorem defines_define (host : Host) (name : String) (value : Value) :
    (host.define name value).Defines name := by
  simp [Defines]

theorem Grows.refl (host : Host) : host.Grows host := fun _ => id

theorem Grows.trans {first second third : Host} (h₁ : first.Grows second)
    (h₂ : second.Grows third) : first.Grows third :=
  fun name h => h₂ name (h₁ name h)

theorem grows_define (host : Host) (name : String) (value : Value) :
    host.Grows (host.define name value) := by
  intro other h
  by_cases hother : other = name
  · subst hother
    exact defines_define host other value
  · simpa [Defines, hother] using h

theorem grows_print (host : Host) (line : String) : host.Grows (host.print line) :=
  fun _ => id

end Host

end Script

namespace Program

open Script (Host Value)

variable {α β : Type}

/-- A program that loses no name, if the host is as given when it begins. After a load the host may
be any. -/
def Grows : Host → Program Host α → Prop
  | _, .done _ => True
  | _, .load _ _ next => ∀ answer host, (next answer).Grows host
  | host, .ask request next => ∀ loader : Loader Host, loader.host = host →
      host.Grows (loader.answer request).2.host ∧
        (next (loader.answer request).1).Grows (loader.answer request).2.host

theorem Grows.bind {program : Program Host α} {next : α → Program Host β} {host : Host}
    (h : program.Grows host) (hnext : ∀ a host, (next a).Grows host) :
    (program.bind next).Grows host := by
  induction program generalizing host with
  | done outcome =>
      cases outcome with
      | error fault => trivial
      | ok a => exact hnext a host
  | load safe requested rest ih => exact fun answer host => ih answer (h answer host)
  | ask request rest ih =>
      intro loader hhost
      obtain ⟨hgrows, hrest⟩ := h loader hhost
      exact ⟨hgrows, ih _ hrest⟩

theorem grows_modifyHost {change : Host → Host} (h : ∀ host : Host, host.Grows (change host))
    (host : Host) : (modifyHost change).Grows host := by
  rintro loader rfl
  refine ⟨.refl _, fun later hlater => ⟨?_, trivial⟩⟩
  exact h loader.host

end Program

namespace Script

open Loader

theorem composable_grows : Composable fun program => ∀ host, program.Grows host where
  done _ _ := trivial
  bind h hnext host := (h host).bind hnext
  call _ _ _ := fun _ _ => trivial
  host _ := by
    rintro loader rfl
    exact ⟨.refl _, trivial⟩
  define name value := Program.grows_modifyHost fun host => host.grows_define name value
  print line := Program.grows_modifyHost fun host => host.grows_print line

theorem grows_executor (path : String) (host : Host) : (executor path).Grows host := by
  refine composable_grows.executor (fun host => ?_) host
  rintro loader rfl
  exact ⟨.refl _, trivial⟩

section Runs

variable {α β : Type} {loader middle entered inner after : Loader Host} {path requested : String}
  {value : Value}

theorem grows_of_runs {program : Program Host α} {outcome : Except Fault α}
    (runs : Runs executor program loader outcome after) (grows : program.Grows loader.host) :
    loader.host.Grows after.host := by
  induction runs with
  | done outcome loader => exact .refl _
  | @asked _ request _ loader _ _ _ ih =>
      obtain ⟨hstep, hnext⟩ := grows loader rfl
      exact hstep.trans (ih hnext)
  | settled verdict _ ih =>
      rw [← host_judge verdict]
      exact ih (grows _ _)
  | @module _ _ _ path _ _ entered _ _ _ _ verdict _ _ ihbody ihrest =>
      have hbody := ihbody (grows_executor path _)
      rw [← host_judge verdict]
      exact hbody.trans (ihrest (grows _ _))

/-! ### A module that has ended well -/

/-- A script that ends well has bound its names. -/
theorem defines_of_runs {file : Option String} {statements : List (Statement Numeral CodePoints)}
    (runs : Runs executor (runStatements file statements) loader (.ok value) after) :
    ∀ name ∈ targets statements, after.host.Defines name := by
  induction statements generalizing loader with
  | nil => simp [targets]
  | cons statement rest ih =>
      -- any statement but a `return` is carried out before the rest
      have carried (h : runStatements file (statement :: rest) =
          (statement.perform file).bind fun _ => runStatements file rest) :
          ∃ middle, Runs executor (statement.perform file) loader (.ok ()) middle ∧
            Runs executor (runStatements file rest) middle (.ok value) after := by
        rw [h] at runs
        obtain ⟨_, middle, hfirst, hnext⟩ | ⟨_, -, hfault⟩ := runs.of_bind
        · exact ⟨middle, hfirst, hnext⟩
        · cases hfault
      cases statement with
      | «return» value line => simp [targets]
      | assign target expr line =>
          obtain ⟨middle, hfirst, hnext⟩ := carried rfl
          have htarget : middle.host.Defines target := by
            obtain ⟨v, evaluated, -, hdefine⟩ | ⟨_, -, hfault⟩ := hfirst.of_bind
            · cases hdefine with
              | asked hdefine =>
                  cases hdefine with
                  | asked hdone =>
                      cases hdone
                      exact evaluated.host.defines_define target v
            · cases hfault
          have hgrows := grows_of_runs hnext (composable_grows.runStatements file rest _)
          intro name hname
          rcases List.mem_cons.mp hname with rfl | hname
          · exact hgrows _ htarget
          · exact ih hnext name hname
      | print expr line =>
          obtain ⟨middle, -, hnext⟩ := carried rfl
          exact ih hnext
      | fail expr line =>
          obtain ⟨middle, -, hnext⟩ := carried rfl
          exact ih hnext
      | call request =>
          obtain ⟨middle, -, hnext⟩ := carried rfl
          exact ih hnext

/-- The file of a module holds a script, and all names that it binds are defined. -/
def Finished (loader : Loader Host) (path : String) : Prop :=
  ∃ bytes script, loader.machine.read path = .ok bytes ∧ ofBytes path bytes = .ok script ∧
    ∀ name ∈ targets script.statements, loader.host.Defines name

theorem Finished.of_grows (h : Finished loader path) (hmachine : after.machine = loader.machine)
    (hgrows : loader.host.Grows after.host) : Finished after path := by
  obtain ⟨bytes, script, hread, hscript, hnames⟩ := h
  exact ⟨bytes, script, by rwa [hmachine], hscript,
    fun name hname => hgrows name (hnames name hname)⟩

/-- A module that ends well was read, and its script was run. -/
theorem exists_script_of_ok (runs : Runs executor (executor path) loader (.ok value) after) :
    ∃ bytes script, loader.machine.read path = .ok bytes ∧ ofBytes path bytes = .ok script ∧
      Runs executor (run script) loader (.ok value) after := by
  have hread : executor path = (Program.query (.read path)).bind _ := rfl
  rw [hread] at runs
  cases runs with
  | asked rest =>
      rcases hbytes : loader.machine.read path with error | bytes
      · simp only [answer, hbytes] at rest
        cases rest
      · simp only [answer, hbytes] at rest
        replace rest : Runs executor ((Program.done (ofBytes path bytes)).bind run) loader
          (.ok value) after := rest
        rcases hscript : ofBytes path bytes with fault | script
        · rw [hscript] at rest
          cases rest
        · rw [hscript] at rest
          exact ⟨bytes, script, rfl, hscript, rest⟩

theorem finished_of_ok (runs : Runs executor (executor path) loader (.ok value) after) :
    Finished after path := by
  obtain ⟨bytes, script, hread, hscript, hruns⟩ := exists_script_of_ok runs
  have hmachine := (runs.passes readsFiles_executor (readsFiles_executor.steady path)).1.machine
  exact ⟨bytes, script, by rwa [hmachine], hscript, defines_of_runs hruns⟩

/-! ### The modules on record -/

/-- Every module that is recorded with a signature is active or has ended well. -/
def Complete (loader : Loader Host) : Prop :=
  ∀ path, loader.cache.contains path = true →
    path ∈ loader.stack.newestFirst ∨ Finished loader path

theorem complete_start (machine : Machine) (algorithm : Digest.Algorithm)
    (baseline : List String) : Complete (Loader.start machine algorithm baseline .empty) := by
  intro path h
  cases h

theorem Complete.of_grows (h : Complete loader) (hmachine : after.machine = loader.machine)
    (hcache : after.cache = loader.cache) (hstack : after.stack = loader.stack)
    (hgrows : loader.host.Grows after.host) : Complete after := by
  intro path hpath
  rw [hcache] at hpath
  rw [hstack]
  exact (h path hpath).imp_right fun finished => finished.of_grows hmachine hgrows

/-- A load that runs nothing records nothing new. -/
theorem Complete.settled (h : Complete loader)
    (verdict : loader.judge requested = (.settled (.ok value), middle)) : Complete middle := by
  cases judged verdict with
  | @upToDate path signature remarks checks same hr =>
      intro other hother
      have hbefore : loader.cache.contains other = true := by
        by_cases hsame : other = path
        · subst hsame
          rw [Cache.contains, same]
          rfl
        · rwa [Cache.contains, ← Cache.signatureOf_record_of_ne hsame loader.cache (some signature)]
      exact (h other hbefore).imp_right fun finished => finished.of_grows rfl (.refl _)

/-- A module that begins is active. -/
theorem Complete.enter (h : Complete loader)
    (verdict : loader.judge requested = (.due path, entered)) :
    Complete (entered.enter path) := by
  cases judged verdict with
  | @due _ signature remarks checks new hr =>
      intro other hother
      by_cases hsame : other = path
      · subst hsame
        exact .inl List.mem_cons_self
      · have hbefore : loader.cache.contains other = true := by
          rwa [Cache.contains, ← Cache.signatureOf_record_of_ne hsame loader.cache signature]
        exact (h other hbefore).imp (List.mem_cons_of_mem _)
          fun finished => finished.of_grows rfl (.refl _)

/-- A module that has ended well need not be active any more. -/
theorem Complete.leave (h : Complete inner) (hstack : inner.stack = loader.stack.push path)
    (finished : Finished inner path) (searchPath : SearchPath) :
    Complete (inner.leave searchPath) := by
  intro other hother
  have hpop : (inner.leave searchPath).stack = loader.stack := by
    simp only [Loader.leave, hstack, LoadStack.pop_push]
  rw [hpop]
  rcases h other hother with hactive | hfinished
  · rw [hstack] at hactive
    rcases List.mem_cons.mp hactive with rfl | hactive
    · exact .inr (finished.of_grows rfl (.refl _))
    · exact .inl hactive
  · exact .inr (hfinished.of_grows rfl (.refl _))

/-- The loader after a module that has ended well. -/
theorem Complete.module (h : Complete (entered.enter path) → Complete inner)
    (complete : Complete loader) (verdict : loader.judge requested = (.due path, entered))
    (body : Runs executor (executor path) (entered.enter path) (.ok value) inner) :
    Complete (inner.leave entered.searchPath) := by
  have hstack : inner.stack = loader.stack.push path := by
    rw [(body.passes readsFiles_executor (readsFiles_executor.steady path)).2, stack_enter verdict]
  exact (h (complete.enter verdict)).leave hstack (finished_of_ok body) _

theorem complete_of_runs {program : Program Host α} {outcome : Except Fault α}
    (runs : Runs executor program loader outcome after) (steady : program.Steady)
    (grows : program.Grows loader.host) {a : α} (ok : outcome = .ok a)
    (complete : Complete loader) : Complete after := by
  induction runs with
  | done outcome loader => exact complete
  | @asked _ request _ loader _ _ _ ih =>
      obtain ⟨hstep, hnext⟩ := grows loader rfl
      apply ih (steady.2 _) hnext ok
      obtain ⟨host, heq⟩ := exists_answer_of_hostly loader steady.1
      rw [heq] at hstep ⊢
      exact complete.of_grows rfl rfl rfl hstep
  | settled verdict rest ih =>
      subst ok
      obtain ⟨value, rfl⟩ := ok_of_report steady.1 rest
      exact ih (steady.2 _) (grows _ _) rfl (complete.settled verdict)
  | @module _ _ _ path _ _ _ _ _ _ _ verdict body rest ihbody ihrest =>
      subst ok
      obtain ⟨value, hvalue⟩ := ok_of_report steady.1 rest
      obtain rfl := eq_ok_of_mapError hvalue
      apply ihrest (steady.2 _) (grows _ _) rfl
      exact .module (ihbody (readsFiles_executor.steady path) (grows_executor path _) rfl) complete
        verdict body

/-- So it is at every moment of a run at which nothing has failed yet. -/
theorem complete_of_reaches {program : Program Host α} {active : List String}
    {left : Program Host β} {now : Loader Host}
    (reaches : Reaches executor program loader active left now) (steady : program.Steady)
    (grows : program.Grows loader.host) (going : ∀ fault, left ≠ .done (.error fault))
    (complete : Complete loader) : Complete now := by
  induction reaches with
  | here program loader => exact complete
  | @asked _ _ request _ loader _ _ _ _ ih =>
      obtain ⟨hstep, hnext⟩ := grows loader rfl
      apply ih (steady.2 _) hnext going
      obtain ⟨host, heq⟩ := exists_answer_of_hostly loader steady.1
      rw [heq] at hstep ⊢
      exact complete.of_grows rfl rfl rfl hstep
  | settled verdict rest ih =>
      obtain ⟨value, rfl⟩ := ok_of_report_of_reaches steady.1 going rest
      exact ih (steady.2 _) (grows _ _) going (complete.settled verdict)
  | inside verdict _ ih =>
      exact ih (readsFiles_executor.steady _) (grows_executor _ _) going (complete.enter verdict)
  | @returned _ _ _ _ path _ _ _ _ _ _ _ _ verdict body rest ih =>
      obtain ⟨value, hvalue⟩ := ok_of_report_of_reaches steady.1 going rest
      obtain rfl := eq_ok_of_mapError hvalue
      apply ih (steady.2 _) (grows _ _) going
      exact .module (complete_of_runs body (readsFiles_executor.steady path) (grows_executor path _)
        rfl) complete verdict body

def loadAll : List (Bool × String) → Program Host (List Value)
  | [] => .done (.ok [])
  | (safe, requested) :: rest =>
    (Program.call safe requested).bind fun value =>
      (loadAll rest).bind fun values => .done (.ok (value :: values))

theorem Composable.loadAll {P : ∀ {α : Type}, Program Host α → Prop} (h : Composable P)
    (calls : List (Bool × String)) : P (loadAll calls) := by
  induction calls with
  | nil => exact h.done _
  | cons call rest ih => exact h.bind (h.call _ _) fun value => h.bind ih fun values => h.done _

/-- Loads and safe loads of scripts are asked for, one after the other, of a new loader with a new
host, and none has failed so far. Whenever a load ends well, of those or of those that the scripts
ask for, the name that it asks for means a module, and if this module is not active any more, then
its file holds a script and every name that the script binds before its first `return` is defined,
whether the load has run the module or not. -/
theorem load_defines_targets {machine : Machine} {algorithm : Digest.Algorithm}
    {baseline : List String} {calls : List (Bool × String)} {active : List String} {safe : Bool}
    {requested : String} {next : Except Fault Value → Program Host β} {now after : Loader Host}
    {value : Value}
    (reaches : Reaches executor (loadAll calls) (Loader.start machine algorithm baseline .empty)
      active (.load safe requested next) now)
    (returns : Runs executor (.call safe requested) now (.ok value) after) :
    ∃ path, now.target requested = .ok path ∧
      (path ∉ after.stack.newestFirst →
        ∃ bytes script, machine.read path = .ok bytes ∧ ofBytes path bytes = .ok script ∧
          ∀ name ∈ targets script.statements, after.host.Defines name) := by
  have steady := composable_steady.loadAll calls
  have hcall := Program.steady_call (σ := Host) safe requested
  have complete := complete_of_reaches reaches steady (composable_grows.loadAll calls _)
    (fun fault h => by cases h) (complete_start machine algorithm baseline)
  have hafter := complete_of_runs returns hcall (composable_grows.call _ _ _) rfl complete
  have hmachine : after.machine = machine :=
    (returns.passes readsFiles_executor hcall).1.machine.trans
      (reaches.machine_eq readsFiles_executor steady)
  have hfinished {path : String} (finished : Finished after path) :
      ∃ bytes script, machine.read path = .ok bytes ∧ ofBytes path bytes = .ok script ∧
        ∀ name ∈ targets script.statements, after.host.Defines name := by
    rwa [Finished, hmachine] at finished
  obtain verdict | ⟨path, entered, inner, verdict, body, rfl⟩ := returns.of_call_ok
  · cases judged verdict with
    | @upToDate path signature remarks checks same hr =>
        have hrecorded : (now.cache.record path (some signature)).contains path = true := by
          simp [Cache.contains]
        have hcomplete := hafter path hrecorded
        exact ⟨path, checks.target, fun hnot => hfinished (hcomplete.resolve_left hnot)⟩
  · have finished : Finished (inner.leave entered.searchPath) path :=
      (finished_of_ok body).of_grows rfl (.refl _)
    exact ⟨path, target_of_due verdict, fun _ => hfinished finished⟩

/-- `/a` and `/b` load each other, and `/b` has a statement behind its `return`. -/
def definingLoader : Loader Host :=
  Loader.start ⟨⟨"/", "", []⟩, .build []
    [(["a"], .ofText "let x = 1 load \"b\" let y = 2"),
      (["b"], .ofText "load \"/a\" let z = 3 return z let w = 4")]⟩ .md5 [] .empty

/-- The second load runs nothing, and `z` is defined after it. -/
theorem load_defines_targets_definingLoader :
    ∃ (next : Except Fault Value → Program Host (List Value)) (now after : Loader Host),
      Reaches executor (loadAll [(false, "/a"), (true, "/b")]) definingLoader []
        (.load true "/b" next) now ∧
      Runs executor (.call true "/b") now (.ok .skipped) after ∧
      now.target "/b" = .ok "/b" ∧ "/b" ∉ after.stack.newestFirst ∧ after.host.Defines "z" := by
  have hcalls : (callWith (Loader.execute executor 4) false "/a" definingLoader).bind
      (fun first => (callWith (Loader.execute executor 4) true "/b" first.2).map fun second =>
        (first.1.toBool, second.1.toOption.map Value.isSkipped, first.2.target "/b",
          second.2.stack)) =
        some (true, some true, .ok "/b", .empty) := by
    decide +kernel
  have htargets : (definingLoader.machine.read "/b").toOption.bind
      (fun bytes => (ofBytes "/b" bytes).toOption.map fun script => targets script.statements) =
        some ["z"] := by
    decide +kernel
  obtain ⟨⟨outcome, now⟩, hfirst, hsecond⟩ := Option.bind_eq_some_iff.mp hcalls
  obtain ⟨⟨outcome', after⟩, hcall, hresult⟩ := Option.map_eq_some_iff.mp hsecond
  simp only [Prod.mk.injEq] at hresult
  obtain ⟨hok, hskipped, htarget, hstack⟩ := hresult
  obtain ⟨value, rfl⟩ : ∃ value, outcome = .ok value := by
    cases outcome with
    | ok value => exact ⟨value, rfl⟩
    | error fault => cases hok
  obtain rfl : outcome' = .ok .skipped := by
    cases outcome' with
    | ok value =>
        cases value with
        | skipped => rfl
        | _ => cases hskipped
    | error fault => cases hskipped
  have reaches : Reaches executor (loadAll [(false, "/a"), (true, "/b")]) definingLoader []
      (.load true "/b" _) now := .bind (runs_of_call hfirst) rfl (.here _ _)
  have returns := runs_of_call hcall
  have hnot : "/b" ∉ after.stack.newestFirst := by simp [hstack, LoadStack.empty]
  obtain ⟨path, hpath, hdefines⟩ := load_defines_targets reaches returns
  cases hpath.symm.trans htarget
  obtain ⟨bytes, script, hread, hscript, hnames⟩ := hdefines hnot
  rw [show definingLoader.machine.read "/b" = .ok bytes from hread] at htargets
  simp only [Except.toOption, Option.bind_some, hscript, Option.map_some,
    Option.some.injEq] at htargets
  exact ⟨_, now, after, reaches, returns, htarget, hnot, hnames "z" (by simp [htargets])⟩

end Runs

end Script

end ScriptLoader
