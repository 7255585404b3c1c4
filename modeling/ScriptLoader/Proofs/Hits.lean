import ScriptLoader.Proofs.Boundary
import ScriptLoader.Proofs.Referent

/-!
What a search finds. Names that are not anchored are looked for in the directories of the search
path. The first candidate that is a regular file wins, and the path that the name means is the
canonical form of this candidate, which names the same file.

There is one exception. A directory that is written with a home marker is probed as it is written,
and the marker is expanded only afterwards: then the path is one behind a home directory, whatever
there is.
-/

namespace ScriptLoader

namespace Path

variable {here : Standpoint} {path directory name home : String} {user rest : List Char}

/-- A path that asks for no home directory stays as it is, if it can be the path of a file. -/
theorem expandHome?_of_home?_eq_none (h : home? here path = none)
    (writable : '\x00' ∉ path.toList) : expandHome? here path = some path := by
  rcases hsplit : splitHome? path with _ | ⟨user, rest⟩
  · simp only [expandHome?, hsplit]
  · have huser : here.homeOf? (String.ofList user) = none := by
      simpa [home?, hsplit] using h
    have hnul : '\x00' ∉ user := fun hmem => by
      rw [(splitHome?_eq_some_iff.mp hsplit).1] at writable
      exact writable (List.mem_cons_of_mem _ (List.mem_append_left _ hmem))
    simp only [expandHome?, hsplit, if_neg hnul, huser]

theorem expandHome?_of_marker (hpath : path.toList = '~' :: (user ++ '/' :: rest))
    (plain : '/' ∉ user) (writable : '\x00' ∉ user)
    (known : here.homeOf? (String.ofList user) = some home) :
    expandHome? here path = some (dropTrailingSlashes home ++ String.ofList ('/' :: rest)) := by
  have hsplit : splitHome? path = some (user, '/' :: rest) :=
    splitHome?_eq_some_iff.mpr ⟨hpath, plain, .inr rfl⟩
  simp only [expandHome?, hsplit, if_neg writable, known]
  rw [if_neg]
  simp

/-- A name that is not anchored is put behind its directory, and behind a slash if the directory
ends with something else. -/
theorem exists_toList_join (searched : isAnchored name = false) :
    ∃ slash, (join directory name).toList = directory.toList ++ (slash ++ name.toList) ∧
      (slash = ['/'] ∨
        slash = [] ∧ (directory.toList = [] ∨ directory.toList.getLast? = some '/')) := by
  have hrelative : isAbsolute name = false := (Bool.or_eq_false_iff.mp searched).1
  rw [join, hrelative, if_neg Bool.false_ne_true]
  by_cases hblank : directory = "" ∨ directory.toList.getLast? = some '/'
  · rw [if_pos hblank, String.toList_append]
    exact ⟨[], rfl, .inr ⟨rfl, hblank.imp_left String.toList_eq_nil_iff.mpr⟩⟩
  · rw [if_neg hblank, String.toList_append, String.toList_append, List.append_assoc]
    exact ⟨['/'], rfl, .inl rfl⟩

/-- A candidate has the home marker of its directory, with a slash behind the name. -/
theorem exists_marker_join (searched : isAnchored name = false)
    (h : splitHome? directory = some (user, rest)) :
    ∃ behind, (join directory name).toList = '~' :: (user ++ '/' :: behind) := by
  obtain ⟨slash, hjoin, hslash⟩ := @exists_toList_join directory name searched
  obtain ⟨hdirectory, plain, rfl | hrest⟩ := splitHome?_eq_some_iff.mp h
  · -- the directory is nothing but the marker, so it has no slash at its end
    rw [List.append_nil] at hdirectory
    rcases hslash with rfl | ⟨-, hempty | hlast⟩
    · exact ⟨name.toList, by rw [hjoin, hdirectory]; rfl⟩
    · simp [hdirectory] at hempty
    · rw [hdirectory] at hlast
      rcases List.mem_cons.mp (List.mem_of_getLast? hlast) with hc | hmem
      · cases hc
      · exact (plain hmem).elim
  · obtain ⟨others, rfl⟩ := List.head?_eq_some_iff.mp hrest
    exact ⟨others ++ (slash ++ name.toList), by rw [hjoin, hdirectory]; simp⟩

/-- And it has no other. -/
theorem splitHome?_join_eq_none (searched : isAnchored name = false)
    (h : splitHome? directory = none) : splitHome? (join directory name) = none := by
  obtain ⟨slash, hjoin, hslash⟩ := @exists_toList_join directory name searched
  have hname : name.toList.head? ≠ some '~' :=
    beq_eq_false_iff_ne.mp (Bool.or_eq_false_iff.mp searched).2
  rw [splitHome?_eq_none_iff] at h ⊢
  rw [hjoin]
  rcases hdirectory : directory.toList with _ | ⟨c, others⟩
  · rcases hslash with rfl | ⟨rfl, -⟩
    · simp
    · simpa using hname
  · simpa [hdirectory] using h

theorem home?_join (searched : isAnchored name = false) (here : Standpoint) :
    home? here (join directory name) = home? here directory := by
  rcases hsplit : splitHome? directory with _ | ⟨user, rest⟩
  · simp only [home?, hsplit, splitHome?_join_eq_none searched hsplit]
  · obtain ⟨behind, hjoin⟩ := exists_marker_join searched hsplit
    have hsplit' : splitHome? (join directory name) = some (user, '/' :: behind) :=
      splitHome?_eq_some_iff.mpr ⟨hjoin, (splitHome?_eq_some_iff.mp hsplit).2.1, .inr rfl⟩
    simp only [home?, hsplit, hsplit', Option.bind_some]

end Path

namespace Machine

variable {machine : Machine} {first second path : String}

def SameFile (machine : Machine) (first second : String) : Prop :=
  ∃ place content, machine.locate first = .ok place ∧ machine.locate second = .ok place ∧
    machine.files.node? place = some (.file content)

theorem exists_locate_of_isFile (h : machine.isFile path = true) :
    ∃ place content, machine.locate path = .ok place ∧
      machine.files.node? place = some (.file content) := by
  unfold isFile node at h
  rcases hlocate : machine.locate path with error | place
  · simp [hlocate] at h
  · rcases hnode : machine.files.node? place with _ | content | _ | _
    · simp [hlocate, hnode] at h
    · exact ⟨place, content, rfl, hnode⟩
    · simp [hlocate, hnode] at h
    · simp [hlocate, hnode] at h

theorem SameFile.isFile (h : machine.SameFile first second) : machine.isFile second = true := by
  obtain ⟨place, content, -, hsecond, hnode⟩ := h
  simp only [Machine.isFile, node, hsecond, hnode]

end Machine

namespace Resolve

variable {machine : Machine} {directories : List String} {requested directory path : String}

/-- The path is the canonical form of the first regular file that a directory has for the name. -/
def FirstFile (machine : Machine) (directories : List String) (requested path : String) : Prop :=
  ∃ before directory after, directories = before ++ directory :: after ∧
    (∀ other ∈ before, machine.isFile (candidate other requested) = false) ∧
    machine.isFile (candidate directory requested) = true ∧
    Path.canonicalize? machine.toStandpoint (candidate directory requested) = some path

theorem canonicalize?_of_isFile (isFile : machine.isFile path = true) :
    ∃ found, Path.canonicalize? machine.toStandpoint path = some found := by
  rcases hexpand : Path.expandHome? machine.toStandpoint path with _ | expanded
  · -- only a path with a NUL character has no canonical form
    exact (Machine.nul_not_mem_of_isFile isFile (Path.expandHome?_eq_none hexpand).2).elim
  · exact ⟨Path.absolutize machine.workingDirectory expanded, by
      rw [Path.canonicalize?, hexpand, Option.map_some]⟩

/-- A name that is searched for means the first regular file, if a directory has one. -/
theorem firstFile_or_missing (searched : Path.isAnchored requested = false) :
    (∃ path, FirstFile machine directories requested path ∧
      ∀ caller, resolve machine directories requested caller = .ok path) ∨
    ((∀ directory ∈ directories, machine.isFile (candidate directory requested) = false) ∧
      ∀ caller, resolve machine directories requested caller =
        .error (.notFound requested (some caller))) := by
  rcases found : directory? machine directories requested with _ | directory
  · refine .inr ⟨by simpa using List.find?_eq_none.mp found, fun caller => ?_⟩
    simp only [resolve, searched, Bool.false_eq_true, if_false, found]
  · obtain ⟨isFile, before, after, hsplit, hbefore⟩ := List.find?_eq_some_iff_append.mp found
    obtain ⟨path, hpath⟩ := canonicalize?_of_isFile isFile
    refine .inl ⟨path, ⟨before, directory, after, hsplit, by simpa using hbefore, isFile, hpath⟩,
      fun caller => ?_⟩
    simp only [resolve, searched, Bool.false_eq_true, if_false, found, canonical, hpath]

/-- A search that succeeds in a directory: no directory before it has a regular file for the name,
and the path is that of the file that it has, unless the directory asks for a home directory. Then
the path is the one behind that. -/
structure Hit (machine : Machine) (directories : List String) (requested directory path : String) :
    Prop where
  first : ∃ before after, directories = before ++ directory :: after ∧
    ∀ other ∈ before, machine.isFile (candidate other requested) = false
  isFile : machine.isFile (candidate directory requested) = true
  canonical : Path.Canonical path
  same : Path.home? machine.toStandpoint directory = none →
    machine.SameFile (candidate directory requested) path
  home : ∀ home, Path.home? machine.toStandpoint directory = some home → ∃ user rest,
    (candidate directory requested).toList = '~' :: (user ++ '/' :: rest) ∧ '/' ∉ user ∧
      path = Path.absolutize machine.workingDirectory
        (Path.dropTrailingSlashes home ++ String.ofList ('/' :: rest))

section

variable (absolute : Path.isAbsolute machine.workingDirectory = true)
  (writable : '\x00' ∉ machine.workingDirectory.toList)
  (searched : Path.isAnchored requested = false)

include absolute writable searched

/-- A candidate that is a regular file has a canonical form, which names it. -/
theorem canonical_candidate (isFile : machine.isFile (candidate directory requested) = true)
    (plain : Path.home? machine.toStandpoint directory = none) :
    ∃ path, canonical machine (candidate directory requested) = .ok path ∧
      machine.SameFile (candidate directory requested) path := by
  have hnul := Machine.nul_not_mem_of_isFile isFile
  obtain ⟨place, content, hlocate, hnode⟩ := Machine.exists_locate_of_isFile isFile
  have hexpand : Path.expandHome? machine.toStandpoint (candidate directory requested) =
      some (candidate directory requested) :=
    Path.expandHome?_of_home?_eq_none ((Path.home?_join searched _).trans plain) hnul
  refine ⟨Path.absolutize machine.workingDirectory (candidate directory requested), ?_,
    place, content, hlocate, (Machine.locate_absolutize absolute writable hlocate).2, hnode⟩
  simp only [canonical, Path.canonicalize?, hexpand, Option.map_some]

theorem exists_hit (first : ∃ before after, directories = before ++ directory :: after ∧
      ∀ other ∈ before, machine.isFile (candidate other requested) = false)
    (isFile : machine.isFile (candidate directory requested) = true) :
    ∃ path, canonical machine (candidate directory requested) = .ok path ∧
      Hit machine directories requested directory path := by
  rcases marked : Path.home? machine.toStandpoint directory with _ | home
  · obtain ⟨path, hpath, same⟩ := canonical_candidate absolute writable searched isFile marked
    exact ⟨path, hpath, first, isFile, canonical_of_canonical absolute hpath, fun _ => same,
      fun home h => by cases marked.symm.trans h⟩
  · obtain ⟨⟨user, behind⟩, hsplit, known⟩ := Option.bind_eq_some_iff.mp marked
    obtain ⟨rest, hrest⟩ := Path.exists_marker_join searched hsplit
    have plain := (Path.splitHome?_eq_some_iff.mp hsplit).2.1
    have hnul : '\x00' ∉ user := fun hmem => by
      have := Machine.nul_not_mem_of_isFile isFile
      rw [candidate, hrest] at this
      exact this (List.mem_cons_of_mem _ (List.mem_append_left _ hmem))
    have hpath : canonical machine (candidate directory requested) =
        .ok (Path.absolutize machine.workingDirectory
          (Path.dropTrailingSlashes home ++ String.ofList ('/' :: rest))) := by
      have hexpand := Path.expandHome?_of_marker hrest plain hnul known
      simp only [canonical, Path.canonicalize?, candidate, hexpand, Option.map_some]
    refine ⟨_, hpath, first, isFile, canonical_of_canonical absolute hpath, fun h => ?_,
      fun other h => ?_⟩
    · cases marked.symm.trans h
    · cases marked.symm.trans h
      exact ⟨user, rest, hrest, plain, rfl⟩

/-- A search succeeds in the first directory that has a regular file for the name, or there is
none. -/
theorem hit_or_missing (directories : List String) :
    (∃ directory path, Hit machine directories requested directory path ∧
      ∀ caller, resolve machine directories requested caller = .ok path) ∨
    ((∀ directory ∈ directories, machine.isFile (candidate directory requested) = false) ∧
      ∀ caller, resolve machine directories requested caller =
        .error (.notFound requested (some caller))) := by
  obtain ⟨found, ⟨before, directory, after, hsplit, hbefore, isFile, hfound⟩, hresolve⟩ |
      missing := @firstFile_or_missing machine directories requested searched
  · obtain ⟨path, hpath, hit⟩ := exists_hit absolute writable searched
      ⟨before, after, hsplit, hbefore⟩ isFile
    obtain rfl : found = path := by simpa [canonical, hfound] using hpath
    exact .inl ⟨directory, found, hit, hresolve⟩
  · exact .inr missing

end

end Resolve

namespace Loader

open Resolve

variable {σ : Type} {executor : Executor σ} {loader after : Loader σ} {requested path : String}
  {safe : Bool} {outcome : Except Fault Script.Value}

/-- A call for a file finds it up to date, or runs it; it does nothing else. -/
theorem Runs.of_target (runs : Runs executor (.call safe requested) loader outcome after)
    (target : loader.target requested = .ok path) (canonical : Path.Canonical path)
    (isFile : loader.machine.isFile path = true) :
    loader.judge requested = (.settled (.ok .skipped), after) ∧ outcome = .ok .skipped ∨
      ∃ entered given inner, loader.judge requested = (.due path, entered) ∧
        Runs executor (executor path) (entered.enter path) given inner ∧
        outcome = loader.report safe requested
          (given.mapError (Fault.ofModule path loader.caller)) := by
  obtain ⟨given, verdict, houtcome⟩ | ⟨path', entered, given, inner, verdict, body, houtcome, -⟩ :=
    runs.of_call
  · obtain ⟨settled, hsettled⟩ | ⟨entered, hdue⟩ := judge_of_file target canonical isFile
    · cases hsettled.symm.trans verdict
      exact .inl ⟨verdict, houtcome.trans (report_ok .skipped)⟩
    · cases hdue.symm.trans verdict
  · cases target.symm.trans (target_of_due verdict)
    rw [caller_of_judge verdict] at houtcome
    exact .inr ⟨entered, given, inner, verdict, body, houtcome⟩

/-- Whatever the files, the working directory, the home directories and the directories of the
search path are, a name that is not anchored is not found if no directory has a regular file for it,
and else the search succeeds in the first directory that has one:

* the path that the name means is canonical, and it leads to the file that was found, unless the
  directory asks for a home directory: with a tilde alone, or with one before the name of a known
  user;
* if it does not, every load or safe load of the name, from a loader with these directories,
  finds this path up to date or runs the module at it, and has nothing else to report than what the
  module ends with. -/
theorem search_hit_names_probed_file {machine : Machine}
    (absolute : Path.isAbsolute machine.workingDirectory = true)
    (writable : '\x00' ∉ machine.workingDirectory.toList) {requested : String}
    (searched : Path.isAnchored requested = false) (directories : List String) :
    (∃ directory path, Hit machine directories requested directory path ∧
      (∀ caller, Resolve.resolve machine directories requested caller = .ok path) ∧
      (Path.home? machine.toStandpoint directory = none →
        ∀ (σ : Type) (executor : Executor σ) (loader after : Loader σ) (safe : Bool)
          (outcome : Except Fault Script.Value), loader.machine = machine →
          loader.searchPath.directories = directories →
          Runs executor (.call safe requested) loader outcome after →
          loader.judge requested = (.settled (.ok .skipped), after) ∧ outcome = .ok .skipped ∨
            ∃ entered given inner, loader.judge requested = (.due path, entered) ∧
              Runs executor (executor path) (entered.enter path) given inner ∧
              outcome = loader.report safe requested
                (given.mapError (Fault.ofModule path loader.caller)))) ∨
    ((∀ directory ∈ directories, machine.isFile (candidate directory requested) = false) ∧
      ∀ caller, Resolve.resolve machine directories requested caller =
        .error (.notFound requested (some caller))) := by
  obtain ⟨directory, path, hit, hresolve⟩ | missing :=
    hit_or_missing absolute writable searched directories
  · refine .inl ⟨directory, path, hit, hresolve, fun plain => ?_⟩
    rintro σ executor loader after safe outcome rfl rfl runs
    have target : loader.target requested = .ok path := by
      rw [Loader.target, hresolve]
      rfl
    exact runs.of_target target hit.canonical (hit.same plain).isFile
  · exact .inr missing

/-- `lib` has a directory of the name, there is no user `u`, and `/z` has a file, which is found by
steps up and down. -/
def crookedMachine : Machine :=
  ⟨⟨"/w", "/h", [("v", "/v")]⟩, .build [["x", "lib", "w"], ["w"]] [(["x", "z"], .ofText "")]⟩

theorem search_hit_names_probed_file_crookedMachine :
    Path.isAbsolute crookedMachine.workingDirectory = true ∧
      '\x00' ∉ crookedMachine.workingDirectory.toList ∧ Path.isAnchored "./x" = false ∧
      ∃ directory path, Hit crookedMachine ["lib", "~u", ".././/z/"] "./x" directory path ∧
        Resolve.resolve crookedMachine ["lib", "~u", ".././/z/"] "./x" "" = .ok path ∧
        Path.home? crookedMachine.toStandpoint directory = none ∧
        crookedMachine.SameFile (candidate directory "./x") path := by
  have absolute : Path.isAbsolute crookedMachine.workingDirectory = true := by decide
  have writable : '\x00' ∉ crookedMachine.workingDirectory.toList := by decide
  have searched : Path.isAnchored "./x" = false := by decide
  refine ⟨absolute, writable, searched, ?_⟩
  obtain ⟨directory, path, hit, hresolve, -⟩ | ⟨missing, -⟩ :=
    search_hit_names_probed_file absolute writable searched ["lib", "~u", ".././/z/"]
  · have hplain : ∀ directory ∈ ["lib", "~u", ".././/z/"],
        Path.home? crookedMachine.toStandpoint directory = none := by
      decide +kernel
    obtain ⟨before, after, hsplit, -⟩ := hit.first
    have plain := hplain directory (hsplit ▸ List.mem_append_right _ List.mem_cons_self)
    exact ⟨directory, path, hit, hresolve "", plain, hit.same plain⟩
  · have hfile : crookedMachine.isFile (candidate ".././/z/" "./x") = true := by decide +kernel
    cases hfile.symm.trans (missing _ (by simp))

/-- The working directory has directories that are called like home markers. In the home directory
of the one who runs the program, and of the user `u`, there is a file of a name that they have. -/
def tildeMachine : Machine :=
  ⟨⟨"/w", "/h", [("u", "/h")]⟩, .build []
    [(["x", "~", "w"], .ofText "return 1"), (["y", "~", "w"], .ofText "return 1"),
      (["x", "~u", "w"], .ofText "return 1"), (["x", "h"], .ofText "return 2")]⟩

/-- So a search under a home marker can come to another file than the one it has found, and a load
then runs that one. If there is no such file, the load fails. -/
theorem home_marker_misses_probed_file :
    (¬∀ (machine : Machine) (directories : List String) (requested directory path : String),
      Path.isAbsolute machine.workingDirectory = true →
      '\x00' ∉ machine.workingDirectory.toList → Path.isAnchored requested = false →
      directory? machine directories requested = some directory →
      Resolve.resolve machine directories requested "" = .ok path →
      machine.SameFile (candidate directory requested) path) ∧
    (run Script.executor 1 (.call false "x") (start tildeMachine .md5 ["~"] .empty)).map
      (fun result => startedPaths result.2.journal) = some ["/h/x"] ∧
    (run Script.executor 1 (.call false "x") (start tildeMachine .md5 ["~u"] .empty)).map
      (fun result => startedPaths result.2.journal) = some ["/h/x"] ∧
    (run Script.executor 1 (.call false "y") (start tildeMachine .md5 ["~"] .empty)).map
      (fun result => match result.1 with | .ok _ => none | .error fault => some fault) =
        some (some (.notAFile "/h/y")) := by
  refine ⟨fun h => ?_, ?_, ?_, ?_⟩
  · obtain ⟨place, content, hprobed, hpath, -⟩ := h tildeMachine ["~"] "x" "~" "/h/x"
      (by decide) (by decide) (by decide) (by decide +kernel) (by decide +kernel)
    have hdiffer : tildeMachine.locate (candidate "~" "x") ≠ tildeMachine.locate "/h/x" := by
      decide +kernel
    exact hdiffer (hprobed.trans hpath.symm)
  · decide +kernel
  · decide +kernel
  · decide +kernel

end Loader

end ScriptLoader
