import Mathlib.Data.Set.Card
import ScriptLoader.Proofs.Steady

/-!
Loading scripts ends, whatever the scripts load. A module's signature is recorded before the module
begins, so a file is begun again only if it could not be read, and then the fault of reading it ends
everything. The measure is the number of canonical paths of files that are not recorded with the
signature that they have now; each place has two such paths.
-/

namespace ScriptLoader

namespace Loader

variable {σ α β : Type} {executor : Executor σ}

def Current (loader : Loader σ) (path : String) : Prop :=
  ∃ signature, loader.machine.signature loader.cache.algorithm path = .ok (some signature) ∧
    loader.cache.signatureOf path = some signature

/-- The files stay as they are, and what is recorded with its signature stays so. -/
structure Advances (before after : Loader σ) : Prop where
  machine : after.machine = before.machine
  algorithm : after.cache.algorithm = before.cache.algorithm
  current : ∀ path, before.Current path → after.Current path

theorem Advances.refl (loader : Loader σ) : Advances loader loader where
  machine := rfl
  algorithm := rfl
  current _ := id

theorem Advances.trans {first second third : Loader σ} (h₁ : Advances first second)
    (h₂ : Advances second third) : Advances first third where
  machine := h₂.machine.trans h₁.machine
  algorithm := h₂.algorithm.trans h₁.algorithm
  current path h := h₂.current path (h₁.current path h)

theorem Advances.of_same {before after : Loader σ} (hmachine : after.machine = before.machine)
    (hcache : after.cache = before.cache) : Advances before after where
  machine := hmachine
  algorithm := by rw [hcache]
  current path h := by
    obtain ⟨signature, hsig, hrec⟩ := h
    exact ⟨signature, by rw [hmachine, hcache]; exact hsig, by rw [hcache]; exact hrec⟩

theorem current_of_record {loader after : Loader σ} {requested path : String}
    {signature : Signature} (checks : Checks loader requested path (some signature))
    (hmachine : after.machine = loader.machine)
    (hcache : after.cache = loader.cache.record path (some signature)) : after.Current path := by
  refine ⟨signature, ?_, ?_⟩
  · rw [hmachine, hcache]
    exact checks.signature
  · rw [hcache]
    exact Cache.signatureOf_record_self _ _ _

/-- A check records the signature that the file has. -/
theorem advances_of_record {loader after : Loader σ} {requested path : String}
    {signature : Option Signature} (checks : Checks loader requested path signature)
    (hmachine : after.machine = loader.machine)
    (hcache : after.cache = loader.cache.record path signature) : Advances loader after where
  machine := hmachine
  algorithm := by rw [hcache, Cache.algorithm_record]
  current other h := by
    obtain ⟨recorded, hsig, hrec⟩ := h
    by_cases hother : other = path
    · subst hother
      have hsame := checks.signature.symm.trans hsig
      cases hsame
      exact current_of_record checks hmachine hcache
    · refine ⟨recorded, ?_, ?_⟩
      · rw [hmachine, hcache]
        exact hsig
      · rw [hcache, Cache.signatureOf_record_of_ne hother]
        exact hrec

/-- What is due is not recorded with its signature. -/
theorem not_current_of_due {loader entered : Loader σ} {requested path : String}
    (verdict : loader.judge requested = (.due path, entered)) : ¬loader.Current path := by
  rintro ⟨recorded, hsig, hrec⟩
  cases judged verdict with
  | due checks new _ =>
      have hsame := checks.signature.symm.trans hsig
      cases hsame
      rcases new with hnone | hne
      · cases hnone
      · exact hne hrec

/-- A file that can be read is recorded with its signature when its module begins. -/
theorem current_enter {loader entered : Loader σ} {requested path : String}
    (verdict : loader.judge requested = (.due path, entered)) {bytes : ByteArray}
    (read : loader.machine.read path = .ok bytes) : (entered.enter path).Current path := by
  cases judged verdict with
  | due checks _ _ =>
      have hsig := checks.signature
      simp only [Machine.signature, read] at hsig
      cases hsig
      exact current_of_record checks rfl rfl

theorem advances_enter {loader entered : Loader σ} {requested path : String}
    (verdict : loader.judge requested = (.due path, entered)) :
    Advances loader (entered.enter path) := by
  cases judged verdict with
  | due checks _ _ => exact advances_of_record checks rfl rfl

def Passes (before after : Loader σ) : Prop :=
  Advances before after ∧ after.stack = before.stack

theorem passes_settled {loader after : Loader σ} {requested : String}
    {given : Except Fault Script.Value} (h : loader.judge requested = (.settled given, after)) :
    Passes loader after := by
  cases judged h with
  | unresolved _ _ => exact ⟨.of_same rfl rfl, rfl⟩
  | notAFile _ _ _ => exact ⟨.of_same rfl rfl, rfl⟩
  | notCanonical _ _ _ _ => exact ⟨.of_same rfl rfl, rfl⟩
  | upToDate checks _ _ => exact ⟨advances_of_record checks rfl rfl, rfl⟩

theorem passes_answer (loader : Loader σ) (request : Request σ) (h : request.IsHostly) :
    Passes loader (loader.answer request).2 := by
  cases request with
  | read path => exact ⟨.of_same rfl rfl, rfl⟩
  | host => exact ⟨.of_same rfl rfl, rfl⟩
  | setHost host => exact ⟨.of_same rfl rfl, rfl⟩
  | _ => exact h.elim

theorem journal_answer_of_hostly (loader : Loader σ) (request : Request σ)
    (h : request.IsHostly) : (loader.answer request).2.journal = loader.journal := by
  cases request with
  | read path => rfl
  | host => rfl
  | setHost host => rfl
  | _ => exact h.elim

theorem stack_enter {loader entered : Loader σ} {requested path : String}
    (verdict : loader.judge requested = (.due path, entered)) :
    (entered.enter path).stack = loader.stack.push path := by
  cases judged verdict with
  | due _ _ _ => rfl

theorem passes_module {loader entered inner : Loader σ} {requested path : String}
    (verdict : loader.judge requested = (.due path, entered))
    (body : Passes (entered.enter path) inner) :
    Passes loader (inner.leave entered.searchPath) := by
  refine ⟨((advances_enter verdict).trans body.1).trans (.of_same rfl rfl), ?_⟩
  simp only [leave, body.2, stack_enter verdict, LoadStack.pop_push]

theorem kept_passes : Kept (σ := σ) Request.IsHostly Passes where
  refl loader := ⟨.refl loader, rfl⟩
  trans h₁ h₂ := ⟨h₁.1.trans h₂.1, h₂.2.trans h₁.2⟩
  answer := passes_answer
  settled := passes_settled
  module := passes_module

theorem Runs.passes {program : Program σ α} {loader after : Loader σ} {outcome : Except Fault α}
    (runs : Runs executor program loader outcome after) (files : ReadsFiles executor)
    (steady : program.Steady) : Passes loader after :=
  runs.kept kept_passes (fun path => (files.steady path).asks) steady.asks

/-! ### Nothing is begun twice -/

def startedPaths (events : List Event) : List String :=
  events.filterMap fun
    | .started path _ => some path
    | _ => none

@[simp] theorem startedPaths_nil : startedPaths [] = [] := rfl

@[simp] theorem startedPaths_append (later earlier : List Event) :
    startedPaths (later ++ earlier) = startedPaths later ++ startedPaths earlier := by
  simp only [startedPaths, List.filterMap_append]

@[simp] theorem startedPaths_remarks {remarks : List Event} (h : Remarks remarks) :
    startedPaths remarks = [] := by
  refine List.filterMap_eq_nil_iff.mpr fun event hmem => ?_
  have hremark := h event hmem
  cases event with
  | started path depth => cases hremark
  | _ => rfl

theorem startedPaths_judge {loader after : Loader σ} {requested : String} {verdict : Verdict}
    (h : loader.judge requested = (verdict, after)) :
    ∃ events, after.journal = events ++ loader.journal ∧ startedPaths events = [] := by
  cases judged h with
  | unresolved _ hr => exact ⟨_, rfl, startedPaths_remarks hr⟩
  | notAFile _ _ hr => exact ⟨_, rfl, startedPaths_remarks hr⟩
  | notCanonical _ _ _ hr => exact ⟨_, rfl, startedPaths_remarks hr⟩
  | @upToDate path signature remarks _ _ hr =>
      exact ⟨.skipped path :: .checked path (loader.machine.read path).toOption (some signature) ::
        remarks, rfl, by simpa [startedPaths] using startedPaths_remarks hr⟩
  | @due path signature remarks _ _ hr =>
      exact ⟨.checked path (loader.machine.read path).toOption signature :: remarks, rfl,
        by simpa [startedPaths] using startedPaths_remarks hr⟩

/-- A module that cannot be read ends at once, with a fault. -/
theorem Runs.of_unreadable {path : String} {loader after : Loader σ}
    {outcome : Except Fault Script.Value} (files : ReadsFiles executor)
    (runs : Runs executor (executor path) loader outcome after) {error : AccessError}
    (read : loader.machine.read path = .error error) :
    after = loader ∧ ∃ fault, outcome = .error fault := by
  obtain ⟨next, heq, hstop, -⟩ := files path
  obtain ⟨fault, hfault⟩ := hstop error
  rw [heq] at runs
  cases runs with
  | asked rest =>
      simp only [answer, read, hfault] at rest
      cases rest
      exact ⟨rfl, fault, rfl⟩

/-- What is begun is begun once; none of it was recorded with its signature, and all of it is if
the outcome is good. -/
structure Once (before after : Loader σ) (outcome : Except Fault α) (events : List Event) :
    Prop where
  journal : after.journal = events ++ before.journal
  nodup : (startedPaths events).Nodup
  new : ∀ path ∈ startedPaths events, ¬before.Current path
  recorded : ∀ a, outcome = .ok a → ∀ path ∈ startedPaths events, after.Current path

theorem Once.of_quiet {before middle after : Loader σ} {outcome : Except Fault α}
    {events quiet : List Event} (h : Once middle after outcome events)
    (advances : Advances before middle) (hjournal : middle.journal = quiet ++ before.journal)
    (hquiet : startedPaths quiet = []) : Once before after outcome (events ++ quiet) where
  journal := by rw [h.journal, hjournal, List.append_assoc]
  nodup := by simpa [hquiet] using h.nodup
  new path hmem := by
    have hmiddle : path ∈ startedPaths events := by simpa [hquiet] using hmem
    exact fun hcurrent => h.new path hmiddle (advances.current path hcurrent)
  recorded a hok path hmem := by
    exact h.recorded a hok path (by simpa [hquiet] using hmem)

/-- A module that has run to its end, together with its own start. -/
theorem Once.module {path requested : String} {loader entered inner : Loader σ}
    {given : Except Fault Script.Value} {events : List Event} (files : ReadsFiles executor)
    (verdict : loader.judge requested = (.due path, entered))
    (body : Runs executor (executor path) (entered.enter path) given inner)
    (h : Once (entered.enter path) inner given events) :
    ∃ events, Once loader (inner.leave entered.searchPath) given events := by
  obtain ⟨earlier, hjournal, hearlier⟩ := startedPaths_judge verdict
  have hstarts : startedPaths (events ++ .started path (entered.stack.depth + 1) :: earlier) =
      startedPaths events ++ [path] := by
    simpa [startedPaths] using hearlier
  have hmachine := (advances_enter verdict).machine
  have hpasses := body.passes files (files.steady path)
  refine ⟨events ++ .started path (entered.stack.depth + 1) :: earlier, ?_, ?_, ?_, ?_⟩
  · show inner.journal = _
    rw [h.journal]
    simp [enter, note, hjournal]
  · rw [hstarts]
    apply h.nodup.append (List.nodup_singleton path)
    rw [List.disjoint_singleton]
    intro hmem
    rcases read : loader.machine.read path with error | bytes
    · -- a module that cannot be read begins no other module
      rw [← hmachine] at read
      obtain ⟨rfl, -⟩ := body.of_unreadable files read
      have hnil : events = [] := by simpa using h.journal
      rw [hnil] at hmem
      cases hmem
    · exact h.new path hmem (current_enter verdict read)
  · rw [hstarts]
    intro other hmem hcurrent
    rcases List.mem_append.mp hmem with hmem | hmem
    · exact h.new other hmem ((advances_enter verdict).current other hcurrent)
    · rw [List.mem_singleton.mp hmem] at hcurrent
      exact not_current_of_due verdict hcurrent
  · rw [hstarts]
    intro value hok other hmem
    have hleave : Advances inner (inner.leave entered.searchPath) := .of_same rfl rfl
    apply hleave.current other
    rcases List.mem_append.mp hmem with hmem | hmem
    · exact h.recorded value hok other hmem
    · rw [List.mem_singleton.mp hmem]
      rcases read : loader.machine.read path with error | bytes
      · rw [← hmachine] at read
        obtain ⟨-, fault, hfault⟩ := body.of_unreadable files read
        rw [hok] at hfault
        cases hfault
      · exact hpasses.1.current path (current_enter verdict read)

/-- What follows a good outcome begins nothing that was begun before it. -/
theorem Once.trans {first second third : Loader σ} {a : α} {outcome : Except Fault β}
    {earlier later : List Event} (h₁ : Once first second (.ok a : Except Fault α) earlier)
    (h₂ : Once second third outcome later) (advances₁ : Advances first second)
    (advances₂ : Advances second third) : Once first third outcome (later ++ earlier) where
  journal := by rw [h₂.journal, h₁.journal, List.append_assoc]
  nodup := by
    rw [startedPaths_append]
    refine h₂.nodup.append h₁.nodup fun path hlater hearlier => ?_
    exact h₂.new path hlater (h₁.recorded a rfl path hearlier)
  new path hmem hcurrent := by
    rw [startedPaths_append] at hmem
    rcases List.mem_append.mp hmem with hmem | hmem
    · exact h₂.new path hmem (advances₁.current path hcurrent)
    · exact h₁.new path hmem hcurrent
  recorded b hok path hmem := by
    rw [startedPaths_append] at hmem
    rcases List.mem_append.mp hmem with hmem | hmem
    · exact h₂.recorded b hok path hmem
    · exact advances₂.current path (h₁.recorded a rfl path hmem)

theorem Runs.once {program : Program σ α} {loader after : Loader σ} {outcome : Except Fault α}
    (runs : Runs executor program loader outcome after) (files : ReadsFiles executor)
    (steady : program.Steady) : ∃ events, Once loader after outcome events := by
  induction runs with
  | done outcome loader => exact ⟨[], rfl, List.nodup_nil, by simp, by simp⟩
  | @asked α request next loader after outcome rest ih =>
      obtain ⟨events, h⟩ := ih (steady.2 _)
      have hjournal : (loader.answer request).2.journal = [] ++ loader.journal :=
        journal_answer_of_hostly loader request steady.1
      exact ⟨_, h.of_quiet (passes_answer loader request steady.1).1 hjournal rfl⟩
  | settled verdict rest ih =>
      obtain ⟨events, h⟩ := ih (steady.2 _)
      obtain ⟨quiet, hjournal, hquiet⟩ := startedPaths_judge verdict
      exact ⟨_, h.of_quiet (passes_settled verdict).1 hjournal hquiet⟩
  | @module α safe requested path next loader entered inner after given outcome verdict body rest
      ihbody ihrest =>
      obtain ⟨events, hbody⟩ := ihbody (files.steady path)
      obtain ⟨earlier, hmodule⟩ := Once.module files verdict body hbody
      cases given with
      | error fault =>
          -- the program ends with the fault of the load
          obtain ⟨reported, hreported⟩ := exists_report_error loader safe requested
            (Fault.ofModule path entered.caller fault)
          obtain ⟨final, hfinal⟩ := steady.1 reported
          simp only [Except.mapError, hreported, hfinal] at rest
          cases rest
          exact ⟨earlier, hmodule.journal, hmodule.nodup, hmodule.new, fun a h => by cases h⟩
      | ok value =>
          obtain ⟨later, hrest⟩ := ihrest (steady.2 _)
          have hpasses := passes_module verdict (body.passes files (files.steady path))
          exact ⟨_, hmodule.trans hrest hpasses.1 (rest.passes files (steady.2 _)).1⟩

/-! ### Every run ends -/

def pending (loader : Loader σ) : Set String :=
  {path | Path.Canonical path ∧ loader.machine.isFile path = true ∧ ¬loader.Current path}

theorem pending_subset (loader : Loader σ) :
    loader.pending ⊆ loader.machine.files.spellings.toFinset := by
  rintro path ⟨canonical, isFile, -⟩
  exact List.mem_toFinset.mpr (Machine.mem_spellings canonical isFile)

theorem finite_pending (loader : Loader σ) : loader.pending.Finite :=
  (Finset.finite_toSet _).subset loader.pending_subset

theorem ncard_pending_le (loader : Loader σ) :
    loader.pending.ncard ≤ 2 * loader.machine.files.count :=
  calc
    loader.pending.ncard ≤ (loader.machine.files.spellings.toFinset : Set String).ncard :=
      Set.ncard_le_ncard loader.pending_subset (Finset.finite_toSet _)
    _ = loader.machine.files.spellings.toFinset.card := Set.ncard_coe_finset _
    _ ≤ loader.machine.files.spellings.length := List.toFinset_card_le _
    _ = 2 * loader.machine.files.count := Files.length_spellings _

theorem Advances.pending_subset {before after : Loader σ} (h : Advances before after) :
    after.pending ⊆ before.pending := by
  rintro path ⟨canonical, isFile, hnew⟩
  rw [h.machine] at isFile
  exact ⟨canonical, isFile, fun hcurrent => hnew (h.current path hcurrent)⟩

theorem Advances.ncard_pending_le {before after : Loader σ} (h : Advances before after) :
    after.pending.ncard ≤ before.pending.ncard :=
  Set.ncard_le_ncard h.pending_subset before.finite_pending

theorem mem_pending_of_due {loader entered : Loader σ} {requested path : String}
    (verdict : loader.judge requested = (.due path, entered)) : path ∈ loader.pending := by
  have hnew := not_current_of_due verdict
  cases judged verdict with
  | due checks _ _ => exact ⟨checks.canonical, checks.isFile, hnew⟩

/-- With every module that can be read, one path less is left. -/
theorem ncard_pending_enter_lt {loader entered : Loader σ} {requested path : String}
    (verdict : loader.judge requested = (.due path, entered)) {bytes : ByteArray}
    (read : loader.machine.read path = .ok bytes) :
    (entered.enter path).pending.ncard < loader.pending.ncard := by
  refine Set.ncard_lt_ncard ?_ loader.finite_pending
  have hsubset := (advances_enter verdict).pending_subset
  refine ⟨hsubset, fun hback => ?_⟩
  obtain ⟨-, -, hnew⟩ := hback (mem_pending_of_due verdict)
  exact hnew (current_enter verdict read)

/-- A module ends if steady programs do that begin with fewer paths left than are left now. -/
theorem exists_execute (files : ReadsFiles executor) {depth : Nat}
    (runs : ∀ (program : Program σ Script.Value) (loader : Loader σ), program.Steady →
      loader.pending.ncard < depth →
        ∃ outcome after, loader.run executor depth program = some (outcome, after))
    {loader entered : Loader σ} {requested path : String}
    (verdict : loader.judge requested = (.due path, entered))
    (h : loader.pending.ncard < depth + 1) :
    ∃ outcome after,
      execute executor (depth + 1) path (entered.enter path) = some (outcome, after) := by
  rcases read : loader.machine.read path with error | bytes
  · -- its path may stay among those that are left, but it ends without another load
    obtain ⟨next, heq, hstop, -⟩ := files path
    obtain ⟨fault, hfault⟩ := hstop error
    rw [← (advances_enter verdict).machine] at read
    refine ⟨.error fault, entered.enter path, ?_⟩
    simp only [execute, heq, runWith, answer, read, hfault]
  · have hlt := ncard_pending_enter_lt verdict read
    exact runs (executor path) (entered.enter path) (files.steady path) (by omega)

/-- A run ends if its depth is more than the number of paths that are left. -/
theorem exists_run (files : ReadsFiles executor) {depth : Nat} {program : Program σ α}
    (steady : program.Steady) {loader : Loader σ} (h : loader.pending.ncard < depth) :
    ∃ outcome after, loader.run executor depth program = some (outcome, after) := by
  -- the outer induction is for the modules that are loaded, the inner one for what follows them
  induction depth generalizing α program loader with
  | zero => omega
  | succ depth ihdepth =>
      induction program generalizing loader with
      | done outcome => exact ⟨outcome, loader, rfl⟩
      | ask request next ih =>
          have hle := (passes_answer loader request steady.1).1.ncard_pending_le
          exact ih _ (steady.2 _) (by omega)
      | load safe requested next ih =>
          rw [run, runWith]
          rcases verdict : loader.judge requested with ⟨given | path, middle⟩
          · have hle := (passes_settled verdict).1.ncard_pending_le
            rw [callWith_of_settled verdict]
            exact ih _ (steady.2 _) (by omega)
          · obtain ⟨given, inner, body⟩ :=
              exists_execute files (fun program loader steady => ihdepth steady) verdict h
            have hpasses := (runs_of_execute body).passes files (files.steady path)
            have hle := (passes_module verdict hpasses).1.ncard_pending_le
            rw [callWith_of_due verdict body]
            exact ih _ (steady.2 _) (by omega)

/-! ### The active modules -/

def Requests (executor : Executor σ) (program : Program σ α) (loader : Loader σ)
    (path : String) : Prop :=
  ∃ (active : List String) (β : Type) (safe : Bool) (requested : String)
    (next : Except Fault Script.Value → Program σ β) (now : Loader σ),
    Reaches executor program loader active (.load safe requested next) now ∧
      now.target requested = .ok path

/-- A load of a part of a run is a load of the run. -/
theorem Requests.of_reaches {program : Program σ α} {rest : Program σ β}
    {loader middle : Loader σ} {path : String} (h : Requests executor rest middle path)
    (lift : ∀ (active : List String) (γ : Type) (left : Program σ γ) (now : Loader σ),
      Reaches executor rest middle active left now →
        ∃ active', Reaches executor program loader active' left now) :
    Requests executor program loader path := by
  obtain ⟨active, γ, safe, requested, next, now, reaches, target⟩ := h
  obtain ⟨active', reaches'⟩ := lift active γ (.load safe requested next) now reaches
  exact ⟨active', γ, safe, requested, next, now, reaches', target⟩

/-- Whatever moment of a module that cannot be read is looked at, it runs no other module. -/
theorem Reaches.active_of_unreadable {path : String} {loader now : Loader σ}
    {active : List String} {left : Program σ β} (files : ReadsFiles executor)
    (reaches : Reaches executor (executor path) loader active left now) {error : AccessError}
    (read : loader.machine.read path = .error error) : active = [] := by
  obtain ⟨next, heq, hstop, -⟩ := files path
  obtain ⟨fault, hfault⟩ := hstop error
  rw [heq] at reaches
  cases reaches with
  | here => rfl
  | asked rest =>
      simp only [answer, read, hfault] at rest
      cases rest
      rfl

/-- The modules that are active in a run are on top of what was on the stack before it. They are
pairwise different, none of them was recorded with its signature, and all but the newest of them
can be read. -/
structure Nested (executor : Executor σ) (program : Program σ α) (loader now : Loader σ)
    (active : List String) : Prop where
  stack : now.stack.newestFirst = active ++ loader.stack.newestFirst
  nodup : active.Nodup
  new : ∀ path ∈ active, ¬loader.Current path
  canonical : ∀ path ∈ active, Path.Canonical path
  isFile : ∀ path ∈ active, loader.machine.isFile path = true
  requested : ∀ path ∈ active, Requests executor program loader path
  readable : ∀ path ∈ active.tail, ∃ bytes, loader.machine.read path = .ok bytes

/-- What is done before and runs no module does not matter. -/
theorem Nested.of_passes {program : Program σ α} {rest : Program σ β}
    {loader middle now : Loader σ} {active : List String}
    (h : Nested executor rest middle now active) (passes : Passes loader middle)
    (lift : ∀ (active : List String) (γ : Type) (left : Program σ γ) (now : Loader σ),
      Reaches executor rest middle active left now →
        ∃ active', Reaches executor program loader active' left now) :
    Nested executor program loader now active where
  stack := by rw [h.stack, passes.2]
  nodup := h.nodup
  new path hmem hcurrent := h.new path hmem (passes.1.current path hcurrent)
  canonical := h.canonical
  isFile path hmem := by
    rw [← passes.1.machine]
    exact h.isFile path hmem
  requested path hmem := (h.requested path hmem).of_reaches lift
  readable path hmem := by
    rw [← passes.1.machine]
    exact h.readable path hmem

/-- Below the modules that are active in a module there is the module itself. -/
theorem Nested.inside {safe : Bool} {requested path : String}
    {next : Except Fault Script.Value → Program σ α} {loader entered now : Loader σ}
    {active : List String} {left : Program σ β} (files : ReadsFiles executor)
    (verdict : loader.judge requested = (.due path, entered))
    (body : Reaches executor (executor path) (entered.enter path) active left now)
    (h : Nested executor (executor path) (entered.enter path) now active) :
    Nested executor (.load safe requested next) loader now (active ++ [path]) := by
  have hadvances := advances_enter verdict
  have hreadable (hactive : active ≠ []) : ∃ bytes, loader.machine.read path = .ok bytes := by
    rcases read : loader.machine.read path with error | bytes
    · rw [← hadvances.machine] at read
      exact (hactive (body.active_of_unreadable files read)).elim
    · exact ⟨bytes, rfl⟩
  have hcases {P : String → Prop} (hactive : ∀ other ∈ active, P other) (hpath : P path) :
      ∀ other ∈ active ++ [path], P other := by
    intro other hmem
    rcases List.mem_append.mp hmem with hmem | hmem
    · exact hactive other hmem
    · rw [List.mem_singleton.mp hmem]
      exact hpath
  refine ⟨?_, ?_, ?_, ?_, ?_, ?_, ?_⟩
  · rw [h.stack, stack_enter verdict]
    simp [LoadStack.push]
  · apply h.nodup.append (List.nodup_singleton path)
    rw [List.disjoint_singleton]
    intro hmem
    -- a module that runs others was read, and so was recorded before them
    obtain ⟨bytes, read⟩ := hreadable (List.ne_nil_of_mem hmem)
    exact h.new path hmem (current_enter verdict read)
  · exact hcases (fun other hmem hcurrent => h.new other hmem (hadvances.current other hcurrent))
      (not_current_of_due verdict)
  · exact hcases h.canonical (mem_pending_of_due verdict).1
  · refine hcases (fun other hmem => ?_) (mem_pending_of_due verdict).2.1
    rw [← hadvances.machine]
    exact h.isFile other hmem
  · refine hcases (fun other hmem => ?_) ?_
    · refine (h.requested other hmem).of_reaches fun above γ left now reaches => ?_
      exact ⟨above ++ [path], .inside verdict reaches⟩
    · cases judged verdict with
      | due checks _ _ => exact ⟨_, _, safe, requested, next, loader, .here _ _, checks.target⟩
  · rcases active with _ | ⟨newest, older⟩
    · simp
    · intro other hmem
      rw [List.cons_append, List.tail_cons] at hmem
      rcases List.mem_append.mp hmem with hmem | hmem
      · rw [← hadvances.machine]
        exact h.readable other hmem
      · rw [List.mem_singleton.mp hmem]
        exact hreadable (List.cons_ne_nil _ _)

theorem Reaches.nested {program : Program σ α} {loader now : Loader σ} {active : List String}
    {left : Program σ β} (reaches : Reaches executor program loader active left now)
    (files : ReadsFiles executor) (steady : program.Steady) :
    Nested executor program loader now active := by
  induction reaches with
  | here program loader =>
      exact ⟨rfl, List.nodup_nil, by simp, by simp, by simp, by simp, by simp⟩
  | @asked α β request next loader now active left rest ih =>
      apply (ih (steady.2 _)).of_passes (passes_answer loader request steady.1)
      intro above γ left now reaches
      exact ⟨above, .asked reaches⟩
  | settled verdict rest ih =>
      apply (ih (steady.2 _)).of_passes (passes_settled verdict)
      intro above γ left now reaches
      exact ⟨above, .settled verdict reaches⟩
  | inside verdict body ih => exact (ih (files.steady _)).inside files verdict body
  | returned verdict body rest ih =>
      have hpasses := passes_module verdict (body.passes files (files.steady _))
      apply (ih (steady.2 _)).of_passes hpasses
      intro above γ left now reaches
      exact ⟨above, .returned verdict body reaches⟩

def readableRequests (executor : Executor σ) (program : Program σ α) (loader : Loader σ) :
    Set String :=
  {path | Path.Canonical path ∧ loader.machine.isFile path = true ∧
    (∃ bytes, loader.machine.read path = .ok bytes) ∧ Requests executor program loader path}

theorem finite_readableRequests (program : Program σ α) (loader : Loader σ) :
    (readableRequests executor program loader).Finite := by
  apply (Finset.finite_toSet loader.machine.files.spellings.toFinset).subset
  rintro path ⟨canonical, isFile, -, -⟩
  exact List.mem_toFinset.mpr (Machine.mem_spellings canonical isFile)

theorem Nested.length_le {program : Program σ α} {loader now : Loader σ} {active : List String}
    (h : Nested executor program loader now active) :
    active.length ≤ (readableRequests executor program loader).ncard + 1 := by
  have hsubset : (active.tail.toFinset : Set String) ⊆
      readableRequests executor program loader := by
    intro path hmem
    have htail := List.mem_toFinset.mp hmem
    have hactive := List.mem_of_mem_tail htail
    exact ⟨h.canonical path hactive, h.isFile path hactive, h.readable path htail,
      h.requested path hactive⟩
  have hcard : active.tail.length ≤ (readableRequests executor program loader).ncard :=
    calc
      active.tail.length = active.tail.toFinset.card :=
        (List.toFinset_card_of_nodup (h.nodup.sublist (List.tail_sublist active))).symm
      _ = (active.tail.toFinset : Set String).ncard := (Set.ncard_coe_finset _).symm
      _ ≤ _ := Set.ncard_le_ncard hsubset (finite_readableRequests program loader)
  rw [List.length_tail] at hcard
  omega

end Loader

namespace Script

open Loader

theorem ncard_pending_lt_depthBound (loader : Loader Host) :
    loader.pending.ncard < depthBound loader.machine := by
  have hle := loader.ncard_pending_le
  unfold depthBound
  omega

theorem exists_runs_call (loader : Loader Host) (safe : Bool) (requested : String) :
    ∃ outcome after, Runs executor (.call safe requested) loader outcome after := by
  obtain ⟨outcome, after, bounded⟩ := exists_run readsFiles_executor
    (Program.steady_call safe requested) (ncard_pending_lt_depthBound loader)
  exact ⟨outcome, after, runs_of_run bounded⟩

/-- Whatever modules do behind the reading of their files, the bound is enough for every call, and a
greater one gives the same result. -/
theorem callWith_of_readsFiles {modules : Executor Host} (files : ReadsFiles modules)
    {loader after : Loader Host} {safe : Bool} {requested : String} {outcome : Except Fault Value}
    (runs : Runs modules (.call safe requested) loader outcome after) {depth : Nat}
    (hdepth : depthBound loader.machine ≤ depth) :
    callWith (Loader.execute modules depth) safe requested loader = some (outcome, after) := by
  obtain ⟨outcome', after', bounded⟩ := exists_run files (Program.steady_call safe requested)
    (Nat.lt_of_lt_of_le (ncard_pending_lt_depthBound loader) hdepth)
  obtain ⟨rfl, rfl⟩ := runs.unique (runs_of_run bounded)
  simp only [Loader.run, Program.call, runWith] at bounded
  split at bounded
  · cases bounded
  · rename_i heq
    cases bounded
    exact heq

theorem callWith_of_runs {loader after : Loader Host} {safe : Bool} {requested : String}
    {outcome : Except Fault Value}
    (runs : Runs executor (.call safe requested) loader outcome after) {depth : Nat}
    (hdepth : depthBound loader.machine ≤ depth) :
    callWith (Loader.execute executor depth) safe requested loader = some (outcome, after) :=
  callWith_of_readsFiles readsFiles_executor runs hdepth

/-- A load or a safe load of scripts at the top level ends, however the scripts load one another,
whatever the files, the search path, the cache, and the names of the host are. On the way every path
is begun at most once, the load stack never holds a path twice, and it is never deeper than one
more than the number of readable files that the request and the scripts ask for. -/
theorem load_terminates {loader : Loader Host} (top : loader.stack = .empty) (safe : Bool)
    (requested : String) :
    ∃ outcome after events,
      (∀ depth, depthBound loader.machine ≤ depth →
        callWith (Loader.execute executor depth) safe requested loader = some (outcome, after)) ∧
      after.journal = events ++ loader.journal ∧ (startedPaths events).Nodup ∧
      (readableRequests executor (.call safe requested) loader).Finite ∧
      ∀ (active : List String) (β : Type) (left : Program Host β) (now : Loader Host),
        Reaches executor (.call safe requested) loader active left now →
          now.stack.newestFirst = active ∧ now.stack.newestFirst.Nodup ∧
            now.stack.depth ≤
              (readableRequests executor (.call safe requested) loader).ncard + 1 := by
  have steady := Program.steady_call (σ := Host) safe requested
  obtain ⟨outcome, after, hruns⟩ := exists_runs_call loader safe requested
  obtain ⟨events, honce⟩ := hruns.once readsFiles_executor steady
  refine ⟨outcome, after, events, fun depth => callWith_of_runs hruns, honce.journal, honce.nodup,
    finite_readableRequests _ _, ?_⟩
  intro active β left now reaches
  have hnested := reaches.nested readsFiles_executor steady
  have hstack : now.stack.newestFirst = active := by
    rw [hnested.stack, top]
    exact List.append_nil active
  refine ⟨hstack, ?_, ?_⟩
  · rw [hstack]
    exact hnested.nodup
  · rw [LoadStack.depth, hstack]
    exact hnested.length_le

def mutualLoader : Loader Host :=
  Loader.start ⟨⟨"/", "", []⟩, .build []
    [(["a"], .ofText "load \"/a\" require \"/b\""), (["b"], .ofText "load \"b\" load \"a\"")]⟩
    .md5 [] .empty

theorem load_terminates_mutualLoader :
    mutualLoader.stack = .empty ∧
      ∃ outcome after,
        callWith (Loader.execute executor 6) false "/a" mutualLoader = some (outcome, after) ∧
        startedPaths after.journal = ["/b", "/a"] ∧ (startedPaths after.journal).Nodup := by
  have hstarted : (callWith (Loader.execute executor 6) false "/a" mutualLoader).map
      (fun result => startedPaths result.2.journal) = some ["/b", "/a"] := by
    decide +kernel
  obtain ⟨outcome, after, events, hend, hjournal, hnodup, -⟩ :=
    @load_terminates mutualLoader rfl false "/a"
  have hcall := hend 6 (by decide +kernel)
  have hevents : after.journal = events := by
    rw [hjournal]
    exact List.append_nil events
  rw [hcall] at hstarted
  refine ⟨rfl, outcome, after, hcall, Option.some.inj hstarted, ?_⟩
  rw [hevents]
  exact hnodup

end Script

end ScriptLoader
