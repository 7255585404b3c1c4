import ScriptLoader.Proofs.Runs

/-!
The injected directories mirror the active loads. As long as nobody resets the loader or changes
its search path or its stack by hand, the injected segment holds the directories of the modules on
the stack, one each and in their order, at every moment of a run. So a module finds its neighbours
first: a name that is a file in the directory of the module that asks for it means that file.
-/

namespace ScriptLoader

/-- All requests but those that change the search path or the stack by hand. -/
def Request.KeepsPaths {σ : Type} : Request σ → Prop
  | .reset | .push _ | .setBaseline _ | .appendBaseline _ | .prependBaseline _ | .inject _
  | .restore _ => False
  | _ => True

namespace Loader

variable {σ α β : Type} {executor : Executor σ}

structure SamePaths (before after : Loader σ) : Prop where
  stack : after.stack = before.stack
  searchPath : after.searchPath = before.searchPath

theorem SamePaths.of_noting {loader : Loader σ} (events : List Event) :
    SamePaths loader (loader.noting events) :=
  ⟨rfl, rfl⟩

theorem SamePaths.trans {first second third : Loader σ} (h₁ : SamePaths first second)
    (h₂ : SamePaths second third) : SamePaths first third where
  stack := h₂.stack.trans h₁.stack
  searchPath := h₂.searchPath.trans h₁.searchPath

theorem samePaths_answer (loader : Loader σ) (request : Request σ) (h : request.KeepsPaths) :
    SamePaths loader (loader.answer request).2 := by
  cases request with
  | resolve requested =>
      obtain ⟨remarks, -, heq⟩ := exists_resolve loader requested
      simp only [answer, heq]
      exact .of_noting remarks
  | isLoaded requested =>
      obtain ⟨remarks, -, heq⟩ := exists_isLoaded loader requested
      simp only [answer, heq]
      exact .of_noting remarks
  | forget requested =>
      obtain ⟨remarks, -, heq | ⟨path, -, heq⟩⟩ := forget_cases loader requested
      · simp only [answer, heq]
        exact .of_noting remarks
      · simp only [answer, heq]
        exact ⟨rfl, rfl⟩
  | loadedModules | signatureOf | searchPath | stack | read | edit | host | setHost =>
      exact ⟨rfl, rfl⟩
  | reset | push | setBaseline | appendBaseline | prependBaseline | inject | restore =>
      exact h.elim

theorem samePaths_judge {loader after : Loader σ} {requested : String} {verdict : Verdict}
    (h : loader.judge requested = (verdict, after)) : SamePaths loader after := by
  cases judged h <;> exact ⟨rfl, rfl⟩

/-- Leaving a module undoes what entering it did. -/
theorem samePaths_module {loader entered inner : Loader σ} {requested path : String}
    (verdict : loader.judge requested = (.due path, entered))
    (body : SamePaths (entered.enter path) inner) :
    SamePaths loader (inner.leave entered.searchPath) := by
  have hentered := samePaths_judge verdict
  refine ⟨?_, hentered.searchPath⟩
  show inner.stack.pop = loader.stack
  rw [body.stack]
  exact hentered.stack

theorem kept_samePaths : Kept (σ := σ) Request.KeepsPaths SamePaths where
  refl _ := ⟨rfl, rfl⟩
  trans := .trans
  answer := samePaths_answer
  settled := samePaths_judge
  module := samePaths_module

/-! ### Every moment of a run -/

/-- The newest active module is being run by its own program, which was begun when it was due. -/
theorem Reaches.innermost {program : Program σ α} {loader now : Loader σ} {module : String}
    {older : List String} {left : Program σ β}
    (reaches : Reaches executor program loader (module :: older) left now) :
    ∃ (requested : String) (before entered : Loader σ),
      before.judge requested = (.due module, entered) ∧
      Reaches executor (executor module) (entered.enter module) [] left now := by
  generalize hactive : module :: older = active at reaches
  induction reaches generalizing older with
  | here program loader => cases hactive
  | asked _ ih => exact ih hactive
  | settled _ _ ih => exact ih hactive
  | returned _ _ _ ih => exact ih hactive
  | @inside _ _ _ requested path _ loader entered _ active _ verdict body ih =>
      rcases active with _ | ⟨newest, others⟩
      · -- the module is the outermost one of this part of the run, and none is inside it
        cases hactive
        exact ⟨requested, loader, entered, verdict, body⟩
      · cases hactive
        exact ih rfl

/-- The modules that are active in a run are on top of the stack, and their directories are in
front of the search path. -/
theorem Reaches.mirrors {program : Program σ α} {loader now : Loader σ} {active : List String}
    {left : Program σ β} (reaches : Reaches executor program loader active left now)
    (modules : ∀ path, (executor path).Asks Request.KeepsPaths)
    (asks : program.Asks Request.KeepsPaths) :
    now.stack = ⟨active ++ loader.stack.newestFirst⟩ ∧
      now.searchPath =
        ⟨active.map Path.directoryOf ++ loader.searchPath.injected,
          loader.searchPath.baseline⟩ := by
  induction reaches with
  | here program loader => exact ⟨rfl, rfl⟩
  | @asked _ _ request _ loader _ _ _ _ ih =>
      have hsame := samePaths_answer loader request asks.1
      have hnow := ih (asks.2 _)
      rwa [hsame.stack, hsame.searchPath] at hnow
  | settled verdict _ ih =>
      have hsame := samePaths_judge verdict
      have hnow := ih (asks _)
      rwa [hsame.stack, hsame.searchPath] at hnow
  | @inside _ _ _ _ path _ loader entered _ active _ verdict _ ih =>
      have hsame := samePaths_judge verdict
      obtain ⟨hstack, hsearch⟩ := ih (modules path)
      refine ⟨?_, ?_⟩
      · rw [hstack]
        simp [enter, note, LoadStack.push, hsame.stack]
      · rw [hsearch]
        simp [enter, note, SearchPath.inject, hsame.searchPath]
  | returned verdict body _ ih =>
      have hsame := samePaths_module verdict (body.kept kept_samePaths modules (modules _))
      have hnow := ih (asks _)
      rwa [hsame.stack, hsame.searchPath] at hnow

/-! ### Neighbours -/

/-- The first directory of the search path that has a file for a name decides what it means. -/
theorem target_of_isFile {loader : Loader σ} {directory name : String} {others : List String}
    (first : loader.searchPath.injected = directory :: others)
    (absolute : Path.isAbsolute directory = true) (unanchored : Path.isAnchored name = false)
    (isFile : loader.machine.isFile (Path.join directory name) = true) :
    loader.target name = .ok (Path.normalize (Path.join directory name)) := by
  have hdirectories : loader.searchPath.directories =
      directory :: (others ++ loader.searchPath.baseline) := by
    rw [SearchPath.directories, first, List.cons_append]
  have hfound : Resolve.directory? loader.machine loader.searchPath.directories name =
      some directory := by
    rw [hdirectories, Resolve.directory?]
    exact List.find?_cons_of_pos isFile
  have hcanonical : Resolve.canonical loader.machine (Path.join directory name) =
      .ok (Path.normalize (Path.join directory name)) := by
    rw [Resolve.canonical,
      Path.canonicalize?_of_isAbsolute (Path.isAbsolute_join absolute name)]
  simp only [target, Resolve.resolve, unanchored, Bool.false_eq_true, if_false, hfound,
    Resolve.candidate, hcanonical]
  rfl

/-- At every moment of every run that begins with a new loader, of modules that do not reset the
loader or change its search path or its stack by hand, whatever else they do and whatever fails:

* the stack holds the active modules, the injected directories are theirs in the same order, and
  the baseline is the configured one;
* the newest module is the one that is being run, by its own program, and it is the caller of
  whatever is asked for;
* an unanchored name that is a regular file in the directory of that module means this file, by
  its one canonical path, wherever the working directory is. -/
theorem injected_mirrors_active {machine : Machine} {algorithm : Digest.Algorithm}
    {baseline : List String} {host : σ} (modules : ∀ path, (executor path).Asks Request.KeepsPaths)
    {program : Program σ α} (asks : program.Asks Request.KeepsPaths) {active : List String}
    {left : Program σ β} {now : Loader σ}
    (reaches : Reaches executor program (start machine algorithm baseline host) active left now) :
    now.stack.newestFirst = active ∧ now.stack.chain = active.reverse ∧
      now.searchPath.injected = active.map Path.directoryOf ∧
      now.searchPath.baseline = baseline ∧
      ∀ module older, active = module :: older →
        now.stack.top = module ∧
        (∃ entry, entry.stack.top = module ∧
          Reaches executor (executor module) entry [] left now) ∧
        ∀ name, Path.isAnchored name = false →
          now.machine.isFile (Path.join (Path.directoryOf module) name) = true →
          ∃ path, (now.resolve name).1 = .ok path ∧
            ∀ here, Path.canonicalize? here (Path.join (Path.directoryOf module) name) =
              some path := by
  obtain ⟨hstack, hsearch⟩ := reaches.mirrors modules asks
  have hnewest : now.stack.newestFirst = active := by
    rw [hstack]
    exact List.append_nil active
  have hinjected : now.searchPath.injected = active.map Path.directoryOf := by
    rw [hsearch]
    exact List.append_nil _
  refine ⟨hnewest, by rw [LoadStack.chain, hnewest], hinjected, by rw [hsearch]; rfl, ?_⟩
  rintro module older rfl
  obtain ⟨requested, before, entered, verdict, inside⟩ := reaches.innermost
  refine ⟨?_, ⟨entered.enter module, rfl, inside⟩, ?_⟩
  · show now.stack.newestFirst.headD "" = module
    rw [hnewest]
    rfl
  · intro name unanchored isFile
    have habsolute : Path.isAbsolute (Path.directoryOf module) = true :=
      Path.isAbsolute_directoryOf (canonical_of_due verdict).1
    refine ⟨_, target_of_isFile hinjected habsolute unanchored isFile, ?_⟩
    exact Path.canonicalize?_of_isAbsolute (Path.isAbsolute_join habsolute name)

/-- `/p/a` asks for a module that does not exist, goes on, and loads `/p/q/b`. -/
def nestedModules : Executor Unit
  | "/p/a" => .load true "gone" fun _ => .load false "q/b" .done
  | _ => .done (.ok .nil)

theorem asks_nestedModules (path : String) :
    (nestedModules path).Asks Request.KeepsPaths := by
  unfold nestedModules
  split <;> simp [Program.Asks]

/-- There is a `c` beside `/p/q/b`, and another one in the baseline. -/
def nestedLoader : Loader Unit :=
  start ⟨⟨"/", "", []⟩, .build []
    ([["a", "p"], ["b", "q", "p"], ["c", "q", "p"], ["c"]].map (·, ⟨.empty, true⟩))⟩ .md5 ["/"] ()

def nestedEntry : Loader Unit := (nestedLoader.judge "/p/a").2.enter "/p/a"

def nestedInnerEntry : Loader Unit := ((nestedEntry.judge "gone").2.judge "q/b").2.enter "/p/q/b"

theorem reaches_nestedInnerEntry :
    Reaches nestedModules (.call false "/p/a") nestedLoader ["/p/q/b", "/p/a"]
      (.done (.ok .nil) : Program Unit Script.Value) nestedInnerEntry := by
  have houter : (nestedLoader.judge "/p/a").1 = .due "/p/a" := by rfl
  have hgone : (nestedEntry.judge "gone").1 =
      .settled (.error (.notFound "gone" (some "/p/a"))) := by rfl
  have hinner : ((nestedEntry.judge "gone").2.judge "q/b").1 = .due "/p/q/b" := by rfl
  have hbody : Reaches nestedModules (nestedModules "/p/a") nestedEntry ["/p/q/b"]
      (nestedModules "/p/q/b") nestedInnerEntry :=
    .settled (Prod.ext hgone rfl) (.inside (Prod.ext hinner rfl) (.here _ _))
  exact .inside (Prod.ext houter rfl) hbody

/-- The `c` that `/p/q/b` finds is the one beside it. -/
theorem injected_mirrors_active_nested :
    (∀ path, (nestedModules path).Asks Request.KeepsPaths) ∧
      (Program.call false "/p/a" : Program Unit Script.Value).Asks Request.KeepsPaths ∧
      ∃ now, Reaches nestedModules (.call false "/p/a") nestedLoader ["/p/q/b", "/p/a"]
          (.done (.ok .nil) : Program Unit Script.Value) now ∧
        now.stack.chain = ["/p/a", "/p/q/b"] ∧ now.searchPath.injected = ["/p/q", "/p"] ∧
        now.searchPath.baseline = ["/"] ∧ now.machine.isFile "/p/q/c" = true ∧
        (now.resolve "c").1 = .ok "/p/q/c" := by
  have hasks : (Program.call false "/p/a" : Program Unit Script.Value).Asks Request.KeepsPaths :=
    fun _ => trivial
  obtain ⟨-, hchain, hinjected, hbaseline, hnewest⟩ :=
    injected_mirrors_active asks_nestedModules hasks reaches_nestedInnerEntry
  have hdirectories : ["/p/q/b", "/p/a"].map Path.directoryOf = ["/p/q", "/p"] := by
    decide +kernel
  have hfile : nestedInnerEntry.machine.isFile "/p/q/c" = true := by decide +kernel
  obtain ⟨-, -, hbeside⟩ := hnewest "/p/q/b" ["/p/a"] rfl
  obtain ⟨path, hresolved, hcanonical⟩ := hbeside "c" (by decide) hfile
  have hpath : Path.canonicalize? ⟨"/", "", []⟩ "/p/q/c" = some "/p/q/c" := by decide +kernel
  cases hpath.symm.trans (hcanonical ⟨"/", "", []⟩)
  exact ⟨asks_nestedModules, hasks, nestedInnerEntry, reaches_nestedInnerEntry, hchain,
    hinjected.trans hdirectories, hbaseline, hfile, hresolved⟩

end Loader

end ScriptLoader
