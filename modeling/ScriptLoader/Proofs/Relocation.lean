import Mathlib.Data.List.DropRight
import Mathlib.Data.List.Find
import ScriptLoader.Proofs.Traversal

/-!
Loading does not depend on the working directory. If all directories of the search path are absolute
and the home directory does not make paths relative, then every path that is looked up, recorded,
injected or reported is absolute, so two loaders that differ in the working directory alone do the
same. The only names that are looked for behind the working directory are those of users' homes.
-/

namespace ScriptLoader

namespace Path

def namesUser (path : String) : Bool :=
  match path.toList with
  | '~' :: c :: _ => c != '/'
  | _ => false

theorem dropTrailingSlashes_cases {home : String} (h : home = "" ∨ isAbsolute home = true) :
    dropTrailingSlashes home = "" ∨ isAbsolute (dropTrailingSlashes home) = true := by
  rcases h with rfl | h
  · exact .inl rfl
  · have hfront : (dropTrailingSlashes home).toList <+: home.toList := by
      rw [dropTrailingSlashes, String.toList_ofList]
      exact List.rdropWhile_prefix (· == '/') home.toList
    rcases hlist : (dropTrailingSlashes home).toList with _ | ⟨c, rest⟩
    · exact .inl (String.toList_eq_nil_iff.mp hlist)
    · right
      obtain ⟨back, hback⟩ := hfront
      rw [isAbsolute, ← hback, hlist] at h
      simpa [isAbsolute, hlist] using h

/-- An anchored path that names no user stands for an absolute one. -/
theorem exists_expandHome? {here : Standpoint} {path : String}
    (hhome : here.home = "" ∨ isAbsolute here.home = true) (anchored : isAnchored path = true)
    (huser : namesUser path = false) :
    ∃ expanded, (∀ directory,
      expandHome? { here with workingDirectory := directory } path = some expanded) ∧
      isAbsolute expanded = true := by
  rcases hlist : path.toList with _ | ⟨c, rest⟩
  · simp [isAnchored, isAbsolute, hlist] at anchored
  · by_cases hc : c = '~'
    · subst hc
      have hrest : rest = [] ∨ rest.head? = some '/' := by
        rcases rest with _ | ⟨d, others⟩
        · exact .inl rfl
        · right
          simpa [namesUser, hlist] using huser
      have hsplit : splitHome? path = some ([], rest) :=
        splitHome?_eq_some_iff.mpr ⟨hlist, List.not_mem_nil, hrest⟩
      simp only [expandHome?, hsplit, List.not_mem_nil, if_false, String.ofList_nil,
        Standpoint.homeOf?_empty, Option.some.injEq, forall_const, exists_eq_left']
      split
      · rfl
      · rename_i hne
        rcases dropTrailingSlashes_cases hhome with hdrop | hdrop
        · rw [hdrop, String.empty_append] at hne ⊢
          rcases hrest with rfl | hslash
          · exact (hne rfl).elim
          · simpa [isAbsolute] using hslash
        · exact isAbsolute_append hdrop _
    · have hhead : path.toList.head? ≠ some '~' := by simpa [hlist] using hc
      refine ⟨path, fun directory => expandHome?_of_head_ne hhead _, ?_⟩
      simpa [isAnchored, hlist, hc] using anchored

end Path

namespace Machine

def movedTo (machine : Machine) (directory : String) : Machine :=
  { machine with workingDirectory := directory }

variable {machine : Machine} {path : String}

theorem node_movedTo (h : Path.isAbsolute path = true) (directory : String) :
    (machine.movedTo directory).node path = machine.node path := by
  have hfull : (machine.movedTo directory).fullPath path = machine.fullPath path := by
    simp [fullPath, h]
  simp only [node, locate, hfull]
  rfl

theorem isFile_movedTo (h : Path.isAbsolute path = true) (directory : String) :
    (machine.movedTo directory).isFile path = machine.isFile path := by
  simp only [isFile, node_movedTo h]

theorem isPresent_movedTo (h : Path.isAbsolute path = true) (directory : String) :
    (machine.movedTo directory).isPresent path = machine.isPresent path := by
  simp only [isPresent, node_movedTo h]

theorem read_movedTo (h : Path.isAbsolute path = true) (directory : String) :
    (machine.movedTo directory).read path = machine.read path := by
  simp only [read, node_movedTo h]

theorem signature_movedTo (h : Path.isAbsolute path = true) (algorithm : Digest.Algorithm)
    (directory : String) :
    (machine.movedTo directory).signature algorithm path = machine.signature algorithm path := by
  simp only [signature, read_movedTo h]

end Machine

namespace Resolve

variable {machine : Machine} {directories : List String} {path requested : String}

/-- From wherever it is looked at, an anchored path that names no user, and an absolute one, has the
same canonical form. -/
theorem exists_canonical (home : machine.home = "" ∨ Path.isAbsolute machine.home = true)
    (anchored : Path.isAnchored path = true) (user : Path.namesUser path = false) :
    ∃ found, Path.Canonical found ∧
      ∀ directory, canonical (machine.movedTo directory) path = .ok found := by
  obtain ⟨expanded, hexpanded, absolute⟩ := Path.exists_expandHome? home anchored user
  refine ⟨Path.normalize expanded, Path.canonical_normalize absolute, fun directory => ?_⟩
  have hmoved : Path.expandHome? (machine.movedTo directory).toStandpoint path = some expanded :=
    hexpanded directory
  simp only [canonical, Path.canonicalize?, hmoved, Option.map_some, Path.absolutize,
    if_pos absolute]

theorem directory?_movedTo
    (absolute : ∀ directory ∈ directories, Path.isAbsolute directory = true)
    (requested there : String) :
    directory? (machine.movedTo there) directories requested =
      directory? machine directories requested := by
  apply List.find?_congr
  intro directory hmem
  exact Machine.isFile_movedTo (Path.isAbsolute_join (absolute directory hmem) requested) there

theorem canonical_of_isAbsolute (h : Path.isAbsolute path = true) (machine : Machine) :
    canonical machine path = .ok (Path.normalize path) := by
  rw [canonical, Path.canonicalize?_of_isAbsolute h]

theorem isAbsolute_candidate
    (absolute : ∀ directory ∈ directories, Path.isAbsolute directory = true) {directory : String}
    (found : directory? machine directories requested = some directory) :
    Path.isAbsolute (candidate directory requested) = true :=
  Path.isAbsolute_join (absolute directory (List.mem_of_find?_eq_some found)) requested

/-- A name that names no user is resolved to one canonical path, or to none, wherever that is
done. -/
theorem resolve_anywhere (absolute : ∀ directory ∈ directories, Path.isAbsolute directory = true)
    (home : machine.home = "" ∨ Path.isAbsolute machine.home = true)
    (user : Path.namesUser requested = false) (caller : String) :
    (∃ found, Path.Canonical found ∧
      ∀ there, resolve (machine.movedTo there) directories requested caller = .ok found) ∨
    ∀ there, resolve (machine.movedTo there) directories requested caller =
      .error (.notFound requested (some caller)) := by
  rcases anchored : Path.isAnchored requested with _ | _
  · rcases hfound : directory? machine directories requested with _ | directory
    · right
      intro there
      simp [resolve, anchored, directory?_movedTo absolute, hfound]
    · left
      have hcandidate := isAbsolute_candidate absolute hfound
      refine ⟨_, Path.canonical_normalize hcandidate, fun there => ?_⟩
      simp [resolve, anchored, directory?_movedTo absolute, hfound,
        canonical_of_isAbsolute hcandidate]
  · obtain ⟨found, hcanonical, hsame⟩ := exists_canonical home anchored user
    rcases present : machine.isPresent found with _ | _
    · right
      intro there
      simp [resolve, anchored, hsame, Machine.isPresent_movedTo hcanonical.1, present]
    · left
      refine ⟨found, hcanonical, fun there => ?_⟩
      simp [resolve, anchored, hsame, Machine.isPresent_movedTo hcanonical.1, present]

end Resolve

def Request.IsFixed {σ : Type} : Request σ → Prop
  | .read path => Path.isAbsolute path = true
  | .host | .setHost _ => True
  | _ => False

namespace Loader

variable {σ α β : Type}

def movedTo (loader : Loader σ) (directory : String) : Loader σ :=
  { loader with machine := loader.machine.movedTo directory }

@[simp] theorem machine_movedTo (loader : Loader σ) (directory : String) :
    (loader.movedTo directory).machine = loader.machine.movedTo directory := rfl

@[simp] theorem searchPath_movedTo (loader : Loader σ) (directory : String) :
    (loader.movedTo directory).searchPath = loader.searchPath := rfl

@[simp] theorem cache_movedTo (loader : Loader σ) (directory : String) :
    (loader.movedTo directory).cache = loader.cache := rfl

/-- No path is looked for behind the working directory, unless it asks for the home of a user. -/
structure Rooted (loader : Loader σ) : Prop where
  directories : ∀ directory ∈ loader.searchPath.directories, Path.isAbsolute directory = true
  home : loader.machine.home = "" ∨ Path.isAbsolute loader.machine.home = true

section Steps

variable {loader middle entered inner : Loader σ} {requested path : String}

theorem target_movedTo (rooted : Rooted loader) (user : Path.namesUser requested = false)
    (directory : String) :
    (loader.movedTo directory).target requested = loader.target requested := by
  have hsame : Resolve.resolve (loader.machine.movedTo directory) loader.searchPath.directories
      requested loader.caller =
      Resolve.resolve loader.machine loader.searchPath.directories requested loader.caller := by
    obtain ⟨found, -, h⟩ | h :=
      Resolve.resolve_anywhere rooted.directories rooted.home user loader.caller
    · exact (h directory).trans (h loader.machine.workingDirectory).symm
    · exact (h directory).trans (h loader.machine.workingDirectory).symm
  exact congrArg (·.mapError (loader.searchFault requested)) hsame

theorem Rooted.canonical_of_target (rooted : Rooted loader)
    (user : Path.namesUser requested = false) (target : loader.target requested = .ok path) :
    Path.Canonical path := by
  have hresolve := resolve_of_target target
  obtain ⟨found, hcanonical, h⟩ | h :=
    Resolve.resolve_anywhere rooted.directories rooted.home user loader.caller
  · cases hresolve.symm.trans (h loader.machine.workingDirectory)
    exact hcanonical
  · cases hresolve.symm.trans (h loader.machine.workingDirectory)

theorem noteResolved_movedTo (rooted : Rooted loader) (requested directory : String) :
    (loader.movedTo directory).noteResolved requested =
      (loader.noteResolved requested).movedTo directory := by
  simp only [noteResolved, machine_movedTo, searchPath_movedTo,
    Resolve.directory?_movedTo rooted.directories]
  split
  · rfl
  · rcases hfound : Resolve.directory? loader.machine loader.searchPath.directories requested with
      _ | found
    · rfl
    · have hcandidate := Resolve.isAbsolute_candidate rooted.directories hfound
      simp only [Resolve.canonical_of_isAbsolute hcandidate]
      rfl

theorem noteUnreadable_movedTo (h : Path.isAbsolute path = true) (loader : Loader σ)
    (directory : String) :
    (loader.movedTo directory).noteUnreadable path =
      (loader.noteUnreadable path).movedTo directory := by
  simp only [noteUnreadable, machine_movedTo, Machine.read_movedTo h]
  split <;> rfl

theorem check_movedTo (h : Path.isAbsolute path = true) (loader : Loader σ) (directory : String) :
    (loader.movedTo directory).check path =
      (loader.check path).map fun result => (result.1, result.2.movedTo directory) := by
  have hcache : loader.cache.check (loader.machine.movedTo directory) path =
      loader.cache.check loader.machine path := by
    simp only [Cache.check, Machine.signature_movedTo h]
  simp only [check, machine_movedTo, cache_movedTo, hcache, Machine.read_movedTo h]
  rcases loader.cache.check loader.machine path with fault | ⟨unchanged, cache⟩
  · rfl
  · have hnote := noteUnreadable_movedTo h { loader with cache } directory
    exact congrArg (fun noted => Except.ok (unchanged, Loader.note noted
      (.checked path (loader.machine.read path).toOption (cache.signatureOf path)))) hnote

/-- What becomes of a request does not depend on the working directory. -/
theorem judge_movedTo (rooted : Rooted loader) (user : Path.namesUser requested = false)
    {verdict : Verdict} (h : loader.judge requested = (verdict, middle)) (directory : String) :
    (loader.movedTo directory).judge requested = (verdict, middle.movedTo directory) := by
  simp only [judge, resolve, target_movedTo rooted user, noteResolved_movedTo rooted] at h ⊢
  generalize loader.noteResolved requested = noted at h
  rcases target : loader.target requested with fault | path
  · simp only [target] at h ⊢
    cases h
    rfl
  · have absolute := (rooted.canonical_of_target user target).1
    simp only [target, machine_movedTo, Machine.isFile_movedTo absolute,
      check_movedTo absolute] at h ⊢
    split at h
    · rename_i isFile
      simp only [isFile, if_true]
      rcases hcheck : noted.check path with fault | ⟨_ | _, checked⟩
      all_goals
        simp only [hcheck] at h
        cases h
        rfl
    · rename_i isFile
      simp only [isFile]
      cases h
      rfl

theorem answer_movedTo {request : Request σ} (fixed : request.IsFixed) (loader : Loader σ)
    (directory : String) :
    (loader.movedTo directory).answer request =
      ((loader.answer request).1, (loader.answer request).2.movedTo directory) := by
  cases request with
  | read path => simp [answer, Machine.read_movedTo fixed]
  | host => rfl
  | setHost host => rfl
  | _ => exact fixed.elim

theorem Rooted.of_same {after : Loader σ} (h : Rooted loader)
    (hmachine : after.machine = loader.machine) (hpaths : after.searchPath = loader.searchPath) :
    Rooted after where
  directories := by
    rw [hpaths]
    exact h.directories
  home := by
    rw [hmachine]
    exact h.home

theorem Rooted.judge (h : Rooted loader) {verdict : Verdict}
    (judged : loader.judge requested = (verdict, middle)) : Rooted middle :=
  h.of_same (machine_judge judged) (samePaths_judge judged).searchPath

theorem Rooted.enter (h : Rooted loader) (absolute : Path.isAbsolute path = true) :
    Rooted (loader.enter path) where
  directories directory hmem := by
    rcases List.mem_cons.mp hmem with rfl | hmem
    · exact Path.isAbsolute_directoryOf absolute
    · exact h.directories directory hmem
  home := h.home

end Steps

/-! ### Runs from two working directories -/

def AsksFor (executor : Executor σ) (program : Program σ α) (loader : Loader σ)
    (name : String) : Prop :=
  ∃ (active : List String) (β : Type) (safe : Bool)
    (next : Except Fault Script.Value → Program σ β) (now : Loader σ),
    Reaches executor program loader active (.load safe name next) now

/-- A load of a part of a run is a load of the run. -/
theorem AsksFor.of_reaches {executor : Executor σ} {program : Program σ α} {rest : Program σ β}
    {loader middle : Loader σ} {name : String} (h : AsksFor executor rest middle name)
    (lift : ∀ (active : List String) (γ : Type) (left : Program σ γ) (now : Loader σ),
      Reaches executor rest middle active left now →
        ∃ active', Reaches executor program loader active' left now) :
    AsksFor executor program loader name := by
  obtain ⟨active, γ, safe, next, now, reaches⟩ := h
  obtain ⟨active', reaches'⟩ := lift active γ (.load safe name next) now reaches
  exact ⟨active', γ, safe, next, now, reaches'⟩

end Loader

namespace Script

open Loader

variable {α β : Type} {loader now after : Loader Host}

theorem composable_fixed : Composable fun program => program.Asks Request.IsFixed where
  done _ := trivial
  bind := .bind
  call _ _ := fun _ => trivial
  host := ⟨trivial, fun _ => trivial⟩
  define _ _ := ⟨trivial, fun _ => ⟨trivial, fun _ => trivial⟩⟩
  print _ := ⟨trivial, fun _ => ⟨trivial, fun _ => trivial⟩⟩

/-- A module with an absolute path reads nothing else than its own file. -/
theorem fixed_executor {path : String} (absolute : Path.isAbsolute path = true) :
    (executor path).Asks Request.IsFixed :=
  composable_fixed.executor ⟨absolute, fun _ => trivial⟩

/-- A run that asks for no user's home goes the same way from any other working directory. -/
theorem runs_movedTo {program : Program Host α} {outcome : Except Fault α}
    (runs : Runs executor program loader outcome after) (steady : program.Steady)
    (fixed : program.Asks Request.IsFixed) (rooted : Rooted loader)
    (names : ∀ name, AsksFor executor program loader name → Path.namesUser name = false)
    (directory : String) :
    Runs executor program (loader.movedTo directory) outcome (after.movedTo directory) := by
  induction runs with
  | done outcome loader => exact .done _ _
  | @asked _ request next loader _ _ rest ih =>
      refine .asked ?_
      rw [answer_movedTo fixed.1]
      obtain ⟨host, hanswer⟩ := loader.exists_answer_of_hostly steady.1
      apply ih (steady.2 _) (fixed.2 _)
      · rw [hanswer]
        exact rooted.of_same rfl rfl
      · intro name h
        exact names name (h.of_reaches fun active γ left now reaches => ⟨active, .asked reaches⟩)
  | @settled _ safe requested next loader middle _ given _ verdict rest ih =>
      have user := names requested ⟨[], _, safe, next, loader, .here _ _⟩
      refine .settled (judge_movedTo rooted user verdict directory) ?_
      apply ih (steady.2 _) (fixed _) (rooted.judge verdict)
      intro name h
      exact names name
        (h.of_reaches fun active γ left now reaches => ⟨active, .settled verdict reaches⟩)
  | @module _ safe requested path next loader entered inner _ given _ verdict body rest ihbody
      ihrest =>
      have user := names requested ⟨[], _, safe, next, loader, .here _ _⟩
      have absolute := (canonical_of_due verdict).1
      have hentered := rooted.judge verdict
      refine .module (judge_movedTo rooted user verdict directory) (ihbody ?_ ?_ ?_ ?_)
        (ihrest (steady.2 _) (fixed _) ?_ ?_)
      · exact readsFiles_executor.steady path
      · exact fixed_executor absolute
      · exact hentered.enter absolute
      · intro name h
        exact names name (h.of_reaches fun active γ left now reaches =>
          ⟨active ++ [path], .inside verdict reaches⟩)
      · have steady (path : String) := (readsFiles_executor.steady path).asks
        have hmachine := body.kept kept_machine steady (steady path)
        exact hentered.of_same hmachine rfl
      · intro name h
        exact names name
          (h.of_reaches fun active γ left now reaches => ⟨active, .returned verdict body reaches⟩)

/-- The names that a run asks for are in the program or in the text of a file. -/
theorem mem_names_of_reaches {machine : Machine} {program : Program Host α} {asked : List String}
    {active : List String} {safe : Bool} {name : String}
    {next : Except Fault Value → Program Host β}
    (reaches : Reaches executor program loader active (.load safe name next) now)
    (steady : program.Steady) (calls : program.Calls machine asked)
    (hmachine : loader.machine = machine) :
    name ∈ asked ∨ ∃ module ∈ machine.files.spellings, name ∈ Script.names machine module := by
  generalize hleft : Program.load safe name next = left at reaches
  induction reaches generalizing asked with
  | here program loader =>
      subst hleft
      obtain ⟨others, rfl, -⟩ := calls
      exact .inl List.mem_cons_self
  | @asked _ _ request _ loader _ _ _ rest ih =>
      obtain ⟨host, hanswer⟩ := loader.exists_answer_of_hostly steady.1
      have hsame : (loader.answer request).2.machine = machine := by
        rw [hanswer]
        exact hmachine
      exact ih (steady.2 _) (calls loader hmachine) hsame hleft
  | settled verdict rest ih =>
      subst hleft
      obtain ⟨value, rfl⟩ := ok_of_report_of_reaches steady.1 (fun fault h => by cases h) rest
      obtain ⟨others, rfl, hcalls⟩ := calls
      rw [report_ok] at ih
      have hothers := ih (steady.2 _) (hcalls value) ((machine_judge verdict).trans hmachine) rfl
      exact hothers.imp_left (List.mem_cons_of_mem _)
  | @inside _ _ _ _ path _ _ entered _ _ _ verdict _ ih =>
      have hsame : (entered.enter path).machine = machine := (machine_judge verdict).trans hmachine
      obtain ⟨canonical, isFile, -⟩ := mem_pending_of_due verdict
      have hfile := Machine.mem_spellings canonical isFile
      rw [hmachine] at hfile
      exact (ih (readsFiles_executor.steady path) (calls_executor path) hsame hleft).elim
        (fun hmem => .inr ⟨path, hfile, hmem⟩) .inr
  | @returned _ _ _ _ path _ _ _ inner _ _ _ _ verdict body rest ih =>
      subst hleft
      obtain ⟨value, hvalue⟩ := ok_of_report_of_reaches steady.1 (fun fault h => by cases h) rest
      obtain rfl := eq_ok_of_mapError hvalue
      obtain ⟨others, rfl, hcalls⟩ := calls
      have hpasses := passes_module verdict
        (body.passes readsFiles_executor (readsFiles_executor.steady path))
      rw [report_mapError_ok] at ih
      have hothers := ih (steady.2 _) (hcalls value) (hpasses.1.machine.trans hmachine) rfl
      exact hothers.imp_left (List.mem_cons_of_mem _)

/-- A load or a safe load of scripts does the same from every working directory: its outcome is the
same, and the loaders differ in nothing else afterwards, be it the cache, the names and the output
of the host, or what was begun and in which order. This is so if the directories of the search path
are absolute, the home directory is absolute or empty, and no name that is asked for on the way asks
for the home of a user. -/
theorem load_ignores_workingDirectory {loader : Loader Host}
    (directories : ∀ directory ∈ loader.searchPath.directories, Path.isAbsolute directory = true)
    (home : loader.machine.home = "" ∨ Path.isAbsolute loader.machine.home = true) {safe : Bool}
    {requested : String}
    (names : ∀ name, AsksFor executor (.call safe requested) loader name →
      Path.namesUser name = false) (directory : String) :
    ∃ outcome after, ∀ depth, depthBound loader.machine ≤ depth →
      callWith (Loader.execute executor depth) safe requested loader = some (outcome, after) ∧
      callWith (Loader.execute executor depth) safe requested (loader.movedTo directory) =
        some (outcome, after.movedTo directory) := by
  obtain ⟨outcome, after, runs⟩ := exists_runs_call loader safe requested
  have moved := runs_movedTo runs (Program.steady_call safe requested)
    (composable_fixed.call safe requested) ⟨directories, home⟩ names directory
  exact ⟨outcome, after, fun depth hdepth => ⟨callWith_of_runs runs hdepth,
    callWith_of_runs moved hdepth⟩⟩

/-- `/p/a` is found in the search path, `/p/q/d` beside the module that asks for it, and `/h/c` in
the home directory. -/
def scatteredLoader : Loader Host :=
  Loader.start ⟨⟨"/", "/h", []⟩, .build []
    [(["a", "p"], .ofText "require \"q/b\" load \"~/c\""), (["b", "q", "p"], .ofText "load \"d\""),
      (["d", "q", "p"], .ofText "let x = 1"), (["c", "h"], .ofText "print x")]⟩
    .md5 ["/p"] .empty

theorem load_ignores_workingDirectory_scatteredLoader :
    (∀ directory ∈ scatteredLoader.searchPath.directories, Path.isAbsolute directory = true) ∧
      Path.isAbsolute scatteredLoader.machine.home = true ∧
      (∀ name, AsksFor executor (.call true "a") scatteredLoader name →
        Path.namesUser name = false) ∧
      ∃ value after,
        callWith (Loader.execute executor 10) true "a" scatteredLoader = some (.ok value, after) ∧
        callWith (Loader.execute executor 10) true "a" (scatteredLoader.movedTo "/p/q") =
          some (.ok value, after.movedTo "/p/q") ∧
        startedPaths after.journal = ["/h/c", "/p/q/d", "/p/q/b", "/p/a"] := by
  have hdirectories : ∀ directory ∈ scatteredLoader.searchPath.directories,
      Path.isAbsolute directory = true := by
    decide
  have hfiles : ∀ module ∈ scatteredLoader.machine.files.spellings,
      ∀ name ∈ Script.names scatteredLoader.machine module, Path.namesUser name = false := by
    decide +kernel
  have names (name : String) (h : AsksFor executor (.call true "a") scatteredLoader name) :
      Path.namesUser name = false := by
    obtain ⟨active, β, safe, next, now, reaches⟩ := h
    obtain hmem | ⟨module, hmodule, hmem⟩ := mem_names_of_reaches reaches
      (Program.steady_call true "a") (Program.calls_call true "a") rfl
    · obtain rfl := List.mem_singleton.mp hmem
      rfl
    · exact hfiles module hmodule name hmem
  have hstarted : (callWith (Loader.execute executor 10) true "a" scatteredLoader).map
      (fun result => (result.1.toBool, startedPaths result.2.journal)) =
        some (true, ["/h/c", "/p/q/d", "/p/q/b", "/p/a"]) := by
    decide +kernel
  obtain ⟨outcome, after, hcalls⟩ := load_ignores_workingDirectory hdirectories
    (.inr (by rfl)) names "/p/q"
  obtain ⟨hcall, hmoved⟩ := hcalls 10 (by decide +kernel)
  rw [hcall] at hstarted
  simp only [Option.map_some, Option.some.injEq, Prod.mk.injEq] at hstarted
  cases outcome with
  | ok value => exact ⟨hdirectories, rfl, names, value, after, hcall, hmoved, hstarted.2⟩
  | error fault => cases hstarted.1

end Script

end ScriptLoader
