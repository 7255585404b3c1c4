import ScriptLoader.Proofs.DepthFirst
import ScriptLoader.Proofs.Injection
import ScriptLoader.Proofs.Termination

/-!
Which modules a load runs, and in which order. The text of a module says which others it asks for,
up to the `return` that ends it. If the names that are not anchored mean neighbours, the modules of
an unchanging machine form a graph, and a load that does not fail runs those that can be reached
from the one it asks for, each of them once, in depth-first order.
-/

namespace ScriptLoader

namespace Program

variable {σ α β : Type}

/-- A program that loads these names, one after the other, whatever the loads give, as long as no
fault ends it. What it asks for is answered on a machine that stays as it is. -/
def Calls (machine : Machine) : Program σ α → List String → Prop
  | .done (.ok _), names => names = []
  | .done (.error _), _ => True
  | .load _ requested next, names =>
    ∃ rest, names = requested :: rest ∧ ∀ value, (next (.ok value)).Calls machine rest
  | .ask request next, names =>
    ∀ loader : Loader σ, loader.machine = machine →
      (next (loader.answer request).1).Calls machine names

variable {machine : Machine} {first second : List String}

theorem Calls.bind {program : Program σ α} {next : α → Program σ β}
    (h : program.Calls machine first) (hnext : ∀ a, (next a).Calls machine second) :
    (program.bind next).Calls machine (first ++ second) := by
  induction program generalizing first with
  | done outcome =>
      cases outcome with
      | error fault => trivial
      | ok a =>
          obtain rfl : first = [] := h
          exact hnext a
  | load safe requested rest ih =>
      obtain ⟨others, rfl, hothers⟩ := h
      exact ⟨others ++ second, rfl, fun value => ih _ (hothers value)⟩
  | ask request rest ih => exact fun loader hmachine => ih _ (h loader hmachine)

/-- What follows loads nothing. -/
theorem Calls.bind_nil {program : Program σ α} {next : α → Program σ β}
    (h : program.Calls machine first) (hnext : ∀ a, (next a).Calls machine []) :
    (program.bind next).Calls machine first := by
  have hbind := h.bind hnext
  rwa [List.append_nil] at hbind

theorem calls_done (outcome : Except Fault α) :
    (.done outcome : Program σ α).Calls machine [] := by
  cases outcome with
  | error fault => trivial
  | ok a => rfl

theorem calls_call (safe : Bool) (requested : String) :
    (call safe requested : Program σ Script.Value).Calls machine [requested] :=
  ⟨[], rfl, fun _ => rfl⟩

theorem calls_query (request : Request σ) : (query request).Calls machine [] :=
  fun _ _ => rfl

theorem calls_modifyHost (change : σ → σ) : (modifyHost change).Calls machine [] :=
  fun _ _ _ _ => rfl

end Program

namespace Script

/-! ### What modules ask for -/

def Expr.requests : Expr Numeral CodePoints → List String
  | .call request => [request.path.fileName]
  | .add left right => left.requests ++ right.requests
  | .number .. | .text .. | .boolean .. | .nil _ | .name .. => []

def Statement.requests : Statement Numeral CodePoints → List String
  | .assign _ value _ | .print value _ | .return value _ | .fail value _ => value.requests
  | .call request => [request.path.fileName]

/-- The names in a script, up to the end of its first `return`. -/
def requests : List (Statement Numeral CodePoints) → List String
  | [] => []
  | .return value _ :: _ => value.requests
  | statement :: rest => statement.requests ++ requests rest

def names (machine : Machine) (module : String) : List String :=
  match machine.read module with
  | .error _ => []
  | .ok bytes =>
    match ofBytes module bytes with
    | .error _ => []
    | .ok script => requests script.statements

/-- The path that a name in a module means, if it is anchored or the name of a neighbour. -/
def meaning? (machine : Machine) (module name : String) : Option String :=
  Path.canonicalize? machine.toStandpoint
    (if Path.isAnchored name then name else Path.join (Path.directoryOf module) name)

def links (machine : Machine) (module : String) : List String :=
  (names machine module).filterMap (meaning? machine module)

def NeighborsOnly (machine : Machine) (module : String) : Prop :=
  ∀ name ∈ names machine module, Path.isAnchored name = false →
    machine.isFile (Path.join (Path.directoryOf module) name) = true

section Calls

variable {machine : Machine}

theorem Expr.calls_evaluate (file : Option String) (expr : Expr Numeral CodePoints) :
    (expr.evaluate file).Calls machine expr.requests := by
  induction expr with
  | name identifier line =>
      refine (Program.calls_query _).bind fun host => ?_
      cases host.value? identifier with
      | some value => rfl
      | none => trivial
  | call request => exact Program.calls_call _ _
  | add left right hleft hright =>
      exact hleft.bind fun a => hright.bind_nil fun b => Program.calls_done _
  | number _ _ | text _ _ | boolean _ _ | nil _ => rfl

theorem Statement.calls_perform (file : Option String) {statement : Statement Numeral CodePoints}
    (h : ∀ value line, statement ≠ .return value line) :
    (statement.perform file).Calls machine statement.requests := by
  cases statement with
  | assign target value line =>
      exact (value.calls_evaluate file).bind_nil fun v => Program.calls_modifyHost _
  | print value line =>
      refine (value.calls_evaluate file).bind_nil fun v => ?_
      refine (Program.calls_done v.shown).bind_nil fun text => ?_
      exact (Program.calls_done (outputLine text)).bind_nil fun _ => Program.calls_modifyHost _
  | «return» value line => exact (h value line rfl).elim
  | fail value line =>
      refine (value.calls_evaluate file).bind_nil fun v => ?_
      exact (Program.calls_done v.shown).bind_nil fun message => Program.calls_done _
  | call request => exact (Program.calls_call _ _).bind_nil fun v => Program.calls_done _

theorem calls_runStatements (file : Option String)
    (statements : List (Statement Numeral CodePoints)) :
    (runStatements file statements).Calls machine (requests statements) := by
  induction statements with
  | nil => rfl
  | cons statement rest ih =>
      cases statement with
      | «return» value line => exact value.calls_evaluate file
      | _ => exact (Statement.calls_perform file (by simp)).bind fun _ => ih

/-- A module loads the names in its text. -/
theorem calls_executor (module : String) :
    (executor module).Calls machine (names machine module) := by
  intro loader hmachine
  simp only [Loader.answer, hmachine, names]
  rcases machine.read module with error | bytes
  · trivial
  · rcases hscript : ofBytes module bytes with fault | script
    · show ((Program.done (ofBytes module bytes)).bind run).Calls machine _
      rw [hscript]
      trivial
    · show ((Program.done (ofBytes module bytes)).bind run).Calls machine _
      rw [hscript]
      simp only [hscript]
      exact calls_runStatements _ _

end Calls

/-! ### What is loaded already -/

section Traversal

open Loader

variable {α : Type} {machine : Machine} {loader middle entered after : Loader Host}
  {module requested path : String} {seen : List String}

def Knows (loader : Loader Host) (seen : List String) : Prop :=
  ∀ path, loader.Current path ↔ path ∈ seen

theorem Knows.of_same (h : Knows loader seen) (hmachine : after.machine = loader.machine)
    (hcache : after.cache = loader.cache) : Knows after seen := by
  intro path
  rw [← h path, Current, Current, hmachine, hcache]

theorem Knows.congr {seen' : List String} (h : Knows loader seen)
    (hsame : ∀ path, path ∈ seen' ↔ path ∈ seen) : Knows loader seen' := by
  intro path
  rw [hsame path]
  exact h path

/-- A check adds its path to what was seen. -/
theorem Knows.record (h : Knows loader seen) {signature : Signature}
    (checks : Checks loader requested path (some signature))
    (hmachine : after.machine = loader.machine)
    (hcache : after.cache = loader.cache.record path (some signature)) :
    Knows after (path :: seen) := by
  intro other
  rw [List.mem_cons]
  by_cases hother : other = path
  · subst hother
    exact ⟨fun _ => .inl rfl, fun _ => current_of_record checks hmachine hcache⟩
  · rw [← h other, Current, Current, hmachine, hcache, Cache.algorithm_record,
      Cache.signatureOf_record_of_ne hother]
    exact (or_iff_right hother).symm

/-- A module that can be read is known when it begins. -/
theorem Knows.enter (h : Knows loader seen)
    (verdict : loader.judge requested = (.due path, entered)) {bytes : ByteArray}
    (read : loader.machine.read path = .ok bytes) : Knows (entered.enter path) (path :: seen) := by
  cases judged verdict with
  | due checks _ _ =>
      have hsignature := checks.signature
      simp only [Machine.signature, read] at hsignature
      cases hsignature
      exact h.record checks rfl rfl

/-- A load that is settled well was for a module that had been seen. -/
theorem Knows.settled (h : Knows loader seen) {value : Value}
    (verdict : loader.judge requested = (.settled (.ok value), middle)) :
    Knows middle seen ∧ ∃ path ∈ seen, loader.target requested = .ok path := by
  cases judged verdict with
  | @upToDate path signature remarks checks same hr =>
      have hmem : path ∈ seen := (h path).mp ⟨signature, checks.signature, same⟩
      have hrecorded : Knows ((loader.recorded path (some signature) remarks).note
          (.skipped path)) (path :: seen) := h.record checks rfl rfl
      refine ⟨hrecorded.congr fun other => ?_, path, hmem, checks.target⟩
      rw [List.mem_cons]
      exact ⟨.inr, fun hother => hother.elim (fun heq => heq ▸ hmem) id⟩

/-! ### While a module runs -/

/-- A loader in which a module is running that has some names left to load. Its directory is
searched first, and the modules that can be reached from it mean neighbours by their names. -/
structure Running (machine : Machine) (module : String) (asked seen : List String)
    (loader : Loader Host) : Prop where
  sameMachine : loader.machine = machine
  nearest : ∃ others, loader.searchPath.injected = Path.directoryOf module :: others
  absolute : Path.isAbsolute module = true
  asked : ∀ name ∈ asked, name ∈ names machine module
  near : ∀ other, Leads (links machine) module other → NeighborsOnly machine other
  knows : Knows loader seen

variable {asked seen' : List String} {name : String}

/-- Another loader goes on with the same module, and perhaps with fewer names. -/
theorem Running.next (h : Running machine module asked seen loader)
    (hmachine : after.machine = loader.machine) (hpaths : after.searchPath = loader.searchPath)
    {others : List String} (hothers : others ⊆ asked) (hknows : Knows after seen') :
    Running machine module others seen' after where
  sameMachine := hmachine.trans h.sameMachine
  nearest := by
    rw [hpaths]
    exact h.nearest
  absolute := h.absolute
  asked other hother := h.asked other (hothers hother)
  near := h.near
  knows := hknows

/-- What a name is resolved to in a module is what it means there. -/
theorem Running.meaning? (h : Running machine module (name :: asked) seen loader)
    (target : loader.target name = .ok path) : meaning? machine module name = some path := by
  have hmachine := h.sameMachine
  unfold Script.meaning?
  rcases anchored : Path.isAnchored name with _ | _
  · -- the directory of the module comes first, and the file is there
    obtain ⟨others, first⟩ := h.nearest
    have hdirectory := Path.isAbsolute_directoryOf h.absolute
    have hneighbor := h.near module .refl name (h.asked name List.mem_cons_self) anchored
    rw [← hmachine] at hneighbor
    have hsame := target.symm.trans (target_of_isFile first hdirectory anchored hneighbor)
    cases hsame
    exact Path.canonicalize?_of_isAbsolute (Path.isAbsolute_join hdirectory name) _
  · have hresolve := resolve_of_target target
    rw [Resolve.resolve, if_pos anchored, Resolve.canonical, hmachine] at hresolve
    rcases hcanonical : Path.canonicalize? machine.toStandpoint name with _ | found
    · rw [hcanonical] at hresolve
      cases hresolve
    · simp only [hcanonical] at hresolve
      split at hresolve
      · cases hresolve
        simpa using hcanonical
      · cases hresolve

theorem Running.mem_links (h : Running machine module (name :: asked) seen loader)
    (target : loader.target name = .ok path) : path ∈ links machine module :=
  List.mem_filterMap.mpr ⟨name, h.asked name List.mem_cons_self, h.meaning? target⟩

/-- A module that can be read runs when it is entered. -/
theorem running_enter (verdict : loader.judge requested = (.due path, entered)) {bytes : ByteArray}
    (read : loader.machine.read path = .ok bytes) (hmachine : loader.machine = machine)
    (near : ∀ other, Leads (links machine) path other → NeighborsOnly machine other)
    (knows : Knows loader seen) :
    Running machine path (names machine path) (path :: seen) (entered.enter path) where
  sameMachine := (advances_enter verdict).machine.trans hmachine
  nearest := ⟨entered.searchPath.injected, rfl⟩
  absolute := (canonical_of_due verdict).1
  asked _ hname := hname
  near := near
  knows := knows.enter verdict read

/-! ### Runs -/

/-- A module that ends well was read. -/
theorem exists_read_of_ok (verdict : loader.judge requested = (.due path, entered)) {value : Value}
    {inner : Loader Host}
    (body : Runs executor (executor path) (entered.enter path) (.ok value) inner) :
    ∃ bytes, loader.machine.read path = .ok bytes := by
  rcases read : loader.machine.read path with error | bytes
  · rw [← (advances_enter verdict).machine] at read
    obtain ⟨-, fault, hfault⟩ := body.of_unreadable readsFiles_executor read
    cases hfault
  · exact ⟨bytes, rfl⟩

/-- What is begun between two loaders is what a depth-first search visits that goes through the
modules `todo`. -/
structure Visits (machine : Machine) (before after : Loader Host) (seen todo order : List String) :
    Prop where
  started : ∃ events, after.journal = events ++ before.journal ∧
    startedPaths events = order.reverse
  depthFirst : DepthFirst (links machine) seen todo order
  known : Knows after (order ++ seen)

variable {todo below order : List String}

/-- A module that is up to date, and what comes after it. -/
theorem Visits.again {given : Except Fault Value}
    (verdict : loader.judge requested = (.settled given, middle)) (old : path ∈ seen)
    (rest : Visits machine middle after seen todo order) :
    Visits machine loader after seen (path :: todo) order where
  started := by
    obtain ⟨events, hjournal, hstarted⟩ := rest.started
    obtain ⟨quiet, hquietJournal, hquiet⟩ := startedPaths_judge verdict
    refine ⟨events ++ quiet, ?_, ?_⟩
    · rw [hjournal, hquietJournal, List.append_assoc]
    · simp [hquiet, hstarted]
  depthFirst := .again old rest.depthFirst
  known := rest.known

/-- A module that has run to its end, and what comes after it. -/
theorem Visits.enter {inner : Loader Host} (verdict : loader.judge requested = (.due path, entered))
    (new : path ∉ seen)
    (inside : Visits machine (entered.enter path) inner (path :: seen) (links machine path) below)
    (rest : Visits machine (inner.leave entered.searchPath) after (below ++ path :: seen) todo
      order) :
    Visits machine loader after seen (path :: todo) (path :: (below ++ order)) where
  started := by
    obtain ⟨quiet, hquietJournal, hquiet⟩ := startedPaths_judge verdict
    obtain ⟨events, hinside, hbelow⟩ := inside.started
    obtain ⟨later, hrest, horder⟩ := rest.started
    refine ⟨later ++ (events ++ .started path (entered.stack.depth + 1) :: quiet), ?_, ?_⟩
    · have hinner : inner.journal = events ++ .started path (entered.stack.depth + 1) ::
          (quiet ++ loader.journal) := by
        rw [hinside, ← hquietJournal]
        rfl
      have hleave : after.journal = later ++ inner.journal := hrest
      rw [hleave, hinner]
      simp
    · rw [startedPaths_append, startedPaths_append, horder, hbelow]
      simpa [startedPaths] using hquiet
  depthFirst := .visit new inside.depthFirst rest.depthFirst
  known := by
    refine rest.known.congr fun other => ?_
    simp only [List.mem_append, List.mem_cons]
    tauto

/-- What is left of a module visits what its names mean that are left. -/
theorem visits_of_runs {program : Program Host α} {outcome : Except Fault α}
    (runs : Runs executor program loader outcome after) (steady : program.Steady) {a : α}
    (ok : outcome = .ok a) (calls : program.Calls machine asked)
    (running : Running machine module asked seen loader) :
    ∃ order,
      Visits machine loader after seen (asked.filterMap (meaning? machine module)) order := by
  induction runs generalizing asked module seen with
  | done outcome loader =>
      subst ok
      obtain rfl : asked = [] := calls
      exact ⟨[], ⟨[], rfl, rfl⟩, .done seen, running.knows⟩
  | @asked _ request next loader after outcome rest ih =>
      obtain ⟨host, hanswer⟩ := exists_answer_of_hostly loader steady.1
      rw [hanswer] at ih
      have hknows : Knows { loader with host } seen := running.knows.of_same rfl rfl
      have hrunning : Running machine module asked seen { loader with host } :=
        running.next (by rfl) (by rfl) (List.Subset.refl asked) hknows
      obtain ⟨order, h⟩ := ih (steady.2 _) ok (calls loader running.sameMachine) hrunning
      exact ⟨order, h.started, h.depthFirst, h.known⟩
  | @settled _ safe requested next loader middle after given outcome verdict rest ih =>
      subst ok
      obtain ⟨value, rfl⟩ := ok_of_report steady.1 rest
      obtain ⟨others, rfl, hcalls⟩ := calls
      obtain ⟨hknows, path, hseen, target⟩ := running.knows.settled verdict
      rw [report_ok] at ih
      obtain ⟨order, h⟩ := ih (steady.2 _) rfl (hcalls value)
        (running.next (passes_settled verdict).1.machine (samePaths_judge verdict).searchPath
          (List.subset_cons_self _ _) hknows)
      rw [List.filterMap_cons_some (running.meaning? target)]
      exact ⟨order, h.again verdict hseen⟩
  | @module _ safe requested path next loader entered inner after given outcome verdict body rest
      ihbody ihrest =>
      subst ok
      obtain ⟨value, hvalue⟩ := ok_of_report steady.1 rest
      obtain rfl := eq_ok_of_mapError hvalue
      obtain ⟨others, rfl, hcalls⟩ := calls
      have target := target_of_due verdict
      have hnew : path ∉ seen := fun hseen =>
        not_current_of_due verdict ((running.knows path).mpr hseen)
      obtain ⟨bytes, read⟩ := exists_read_of_ok verdict body
      obtain ⟨below, inside⟩ := ihbody (readsFiles_executor.steady path) rfl (calls_executor path)
        (running_enter verdict read running.sameMachine
          (fun other hpath => running.near other (.head (running.mem_links target) hpath))
          running.knows)
      have hpasses := passes_module verdict
        (body.passes readsFiles_executor (readsFiles_executor.steady path))
      rw [report_mapError_ok] at ihrest
      obtain ⟨order, h⟩ := ihrest (steady.2 _) rfl (hcalls value)
        (running.next hpasses.1.machine (samePaths_judge verdict).searchPath
          (List.subset_cons_self _ _) (inside.known.of_same rfl rfl))
      rw [List.filterMap_cons_some (running.meaning? target)]
      exact ⟨_, .enter verdict hnew inside h⟩

/-- A load with an empty cache that ends well runs the modules that can be reached from the one it
asks for, each of them once, in depth-first order, of which there is only one. This is so if in each
of these modules the names that are not anchored mean files beside it; then the text of a module
alone says where it leads. -/
theorem load_visits_depthFirst {loader : Loader Host} (fresh : loader.cache.records = [])
    {requested path : String} (target : loader.target requested = .ok path)
    (near : ∀ module, Leads (links loader.machine) path module →
      NeighborsOnly loader.machine module)
    {depth : Nat} {safe : Bool} {value : Value} {after : Loader Host}
    (call : callWith (Loader.execute executor depth) safe requested loader =
      some (.ok value, after)) :
    ∃ events order, after.journal = events ++ loader.journal ∧
      (startedPaths events).reverse = order ∧ DepthFirst (links loader.machine) [] [path] order ∧
      (∀ other, DepthFirst (links loader.machine) [] [path] other → other = order) ∧
      order.Nodup ∧ ∀ module, module ∈ order ↔ Leads (links loader.machine) path module := by
  have knows : Knows loader [] := by
    intro other
    simp [Current, Cache.signatureOf, fresh]
  obtain verdict | ⟨found, entered, inner, verdict, body, rfl⟩ := (runs_of_call call).of_call_ok
  · -- nothing is up to date in an empty cache
    obtain ⟨-, other, hseen, -⟩ := knows.settled verdict
    cases hseen
  · obtain rfl : found = path := by
      cases (target_of_due verdict).symm.trans target
      rfl
    obtain ⟨bytes, read⟩ := exists_read_of_ok verdict body
    obtain ⟨below, inside⟩ := visits_of_runs body (readsFiles_executor.steady found) rfl
      (calls_executor found) (running_enter verdict read rfl near knows)
    have hend : Visits loader.machine (inner.leave entered.searchPath)
        (inner.leave entered.searchPath) (below ++ [found]) [] [] :=
      ⟨⟨[], rfl, rfl⟩, .done _, inside.known.of_same rfl rfl⟩
    have h := Visits.enter verdict List.not_mem_nil inside hend
    obtain ⟨events, hjournal, hstarted⟩ := h.started
    refine ⟨events, _, hjournal, ?_, h.depthFirst, fun other hother => hother.unique h.depthFirst,
      h.depthFirst.nodup, fun module => h.depthFirst.mem_iff⟩
    rw [hstarted, List.reverse_reverse]

/-- `/p/a` is found in the search path, some modules are asked for again and one while it is being
loaded, and `/p/f` is behind a `return`. -/
def neighborsLoader : Loader Host :=
  Loader.start ⟨⟨"/", "", []⟩, .build []
    [(["a", "p"], .ofText
        "require \"q/b\" print load \"c\" + load \"e\" return load \"q/d\" load \"f\""),
      (["b", "q", "p"], .ofText "load \"/p/a\" load \"d\""), (["d", "q", "p"], .ofText ""),
      (["c", "p"], .ofText "return \"c\""), (["e", "p"], .ofText "load \"c\" return \"e\""),
      (["f", "p"], .ofText "")]⟩
    .md5 ["/p"] .empty

def neighborsOrder : List String := ["/p/a", "/p/q/b", "/p/q/d", "/p/c", "/p/e"]

theorem load_visits_depthFirst_neighborsLoader :
    neighborsLoader.cache.records = [] ∧ neighborsLoader.target "a" = .ok "/p/a" ∧
      (∀ module, Leads (links neighborsLoader.machine) "/p/a" module →
        NeighborsOnly neighborsLoader.machine module) ∧
      ∃ value after,
        callWith (Loader.execute executor 9) true "a" neighborsLoader = some (.ok value, after) ∧
        DepthFirst (links neighborsLoader.machine) [] ["/p/a"] neighborsOrder ∧
        ∀ module, module ∈ neighborsOrder ↔
          Leads (links neighborsLoader.machine) "/p/a" module := by
  have htarget : neighborsLoader.target "a" = .ok "/p/a" := by rfl
  have hlinks : ∀ module ∈ neighborsOrder, ∀ goal ∈ links neighborsLoader.machine module,
      goal ∈ neighborsOrder := by
    decide +kernel
  have hfiles : ∀ module ∈ neighborsOrder, ∀ name ∈ names neighborsLoader.machine module,
      Path.isAnchored name = false →
        neighborsLoader.machine.isFile (Path.join (Path.directoryOf module) name) = true := by
    decide +kernel
  have near (module : String) (hpath : Leads (links neighborsLoader.machine) "/p/a" module) :
      NeighborsOnly neighborsLoader.machine module := by
    have hmem : module ∈ neighborsOrder := by
      induction hpath with
      | refl => exact List.mem_cons_self
      | tail _ edge ih => exact hlinks _ ih _ edge
    exact hfiles module hmem
  have hstarted : (callWith (Loader.execute executor 9) true "a" neighborsLoader).map
      (fun result => (result.1.toBool, (startedPaths result.2.journal).reverse)) =
        some (true, neighborsOrder) := by
    decide +kernel
  obtain ⟨⟨outcome, after⟩, call, hresult⟩ := Option.map_eq_some_iff.mp hstarted
  simp only [Prod.mk.injEq] at hresult
  obtain ⟨value, rfl⟩ : ∃ value, outcome = .ok value := by
    cases outcome with
    | ok value => exact ⟨value, rfl⟩
    | error fault => cases hresult.1
  obtain ⟨events, order, hjournal, horder, hdepthFirst, -, -, hreach⟩ :=
    load_visits_depthFirst rfl htarget near call
  have hevents : after.journal = events := by
    rw [hjournal]
    exact List.append_nil events
  obtain rfl : order = neighborsOrder := by
    rw [← horder, ← hevents]
    exact hresult.2
  exact ⟨rfl, htarget, near, value, after, call, hdepthFirst, hreach⟩

end Traversal

end Script

end ScriptLoader
