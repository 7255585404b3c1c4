import ScriptLoader.Resolve

/-!
How canonical paths are spelled. A canonical path is one of the two roots with the plain names of a
place behind it, so a place has exactly two canonical paths. Whatever a name is resolved to is
canonical, provided that the working directory is absolute. So the files of a machine have finitely
many canonical paths.
-/

namespace ScriptLoader.Path

def Plain (name : String) : Prop :=
  name ≠ "" ∧ name ≠ "." ∧ name ≠ ".." ∧ '/' ∉ name.toList

def IsRoot (root : String) : Prop :=
  root = "/" ∨ root = "//"

def spell (root : String) (place : Place) : String :=
  root ++ "/".intercalate place.reverse

theorem not_mem_of_mem_splitOn {α : Type} [BEq α] [LawfulBEq α] {x : α} {xs piece : List α}
    (h : piece ∈ xs.splitOn x) : x ∉ piece := by
  induction xs generalizing piece with
  | nil =>
      rw [List.splitOn_nil, List.mem_singleton] at h
      simp [h]
  | cons y ys ih =>
      rw [List.splitOn_cons_eq_if_modifyHead] at h
      split at h
      · rcases List.mem_cons.mp h with rfl | h
        · simp
        · exact ih h
      · rename_i hne
        obtain ⟨first, rest, hsplit⟩ := List.exists_cons_of_ne_nil (List.splitOn_ne_nil x ys)
        rw [hsplit, List.modifyHead_cons] at h
        rcases List.mem_cons.mp h with rfl | h
        · have hfirst := ih (hsplit ▸ List.mem_cons_self : first ∈ ys.splitOn x)
          have hdiffer : x ≠ y := fun heq => hne (by simp [heq])
          simp [hdiffer, hfirst]
        · exact ih (hsplit ▸ List.mem_cons_of_mem _ h)

theorem slash_not_mem_of_mem_parts {path part : String} (h : part ∈ parts path) :
    '/' ∉ part.toList := by
  obtain ⟨chars, hmem, rfl⟩ := List.mem_map.mp h
  simpa using not_mem_of_mem_splitOn hmem

theorem plain_enter {place : Place} {part : String} (hplace : ∀ name ∈ place, Plain name)
    (hpart : '/' ∉ part.toList) : ∀ name ∈ enter place part, Plain name := by
  unfold enter
  split
  · exact hplace
  · rename_i hstay
    split
    · exact fun name hmem => hplace name (List.mem_of_mem_tail hmem)
    · rename_i hup
      rintro name hmem
      rcases List.mem_cons.mp hmem with rfl | hmem
      · exact ⟨fun h => hstay (.inl h), fun h => hstay (.inr h), hup, hpart⟩
      · exact hplace name hmem

theorem plain_foldl_enter {names : List String} (hnames : ∀ part ∈ names, '/' ∉ part.toList)
    {place : Place} (hplace : ∀ name ∈ place, Plain name) :
    ∀ name ∈ names.foldl enter place, Plain name := by
  induction names generalizing place with
  | nil => exact hplace
  | cons part rest ih =>
      exact ih (fun p hp => hnames p (List.mem_cons_of_mem _ hp))
        (plain_enter hplace (hnames part List.mem_cons_self))

theorem plain_destination (path : String) : ∀ name ∈ destination path, Plain name :=
  plain_foldl_enter (fun _ => slash_not_mem_of_mem_parts) (by simp)

/-- Plain names are entered one by one. -/
theorem foldl_enter_of_plain {names : List String} (h : ∀ name ∈ names, Plain name)
    (place : Place) : names.foldl enter place = names.reverse ++ place := by
  induction names generalizing place with
  | nil => rfl
  | cons name rest ih =>
      obtain ⟨hempty, hdot, hup, -⟩ := h name List.mem_cons_self
      rw [List.foldl_cons, enter_name hempty hdot hup,
        ih (fun n hn => h n (List.mem_cons_of_mem _ hn))]
      simp

theorem isRoot_root {path : String} (h : isAbsolute path = true) :
    IsRoot (root path.toList) := by
  unfold isAbsolute at h
  unfold root IsRoot
  split
  · exact .inl rfl
  · exact .inr rfl
  · exact .inl rfl
  · rename_i _ _ hne
    rcases hlist : path.toList with _ | ⟨c, rest⟩
    · simp [hlist] at h
    · have hc : c = '/' := by simpa [hlist] using h
      exact (hne rest (by rw [hlist, hc])).elim

theorem IsRoot.ne_empty {r : String} (h : IsRoot r) : r ≠ "" := by
  rcases h with rfl | rfl <;> decide

theorem append_ne_empty {r : String} (h : r ≠ "") (text : String) : r ++ text ≠ "" := by
  intro heq
  exact h (String.append_eq_empty_iff.mp heq).1

theorem normalize_of_isAbsolute {path : String} (h : isAbsolute path = true) :
    normalize path = spell (root path.toList) (destination path) := by
  have hroot := (isRoot_root h).ne_empty
  simp only [normalize, if_neg hroot, spell, destination, if_neg (append_ne_empty hroot _)]

/-- The parts behind the root of a spelled place. -/
theorem splitOn_intercalate_names {names : List String} (h : ∀ name ∈ names, Plain name) :
    ((['/'].intercalate (names.map String.toList)).splitOn '/').map String.ofList =
      if names = [] then [""] else names := by
  split
  · rename_i hnil
    simp [hnil]
  · rename_i hne
    rw [List.splitOn_intercalate]
    · simp [List.map_map, Function.comp_def]
    · intro chars hmem
      obtain ⟨name, hname, rfl⟩ := List.mem_map.mp hmem
      exact (h name hname).2.2.2
    · simpa using hne

@[simp] theorem parts_slash_append (text : String) : parts ("/" ++ text) = "" :: parts text := by
  have hlist : ("/" ++ text).toList = '/' :: text.toList := by simp
  simp [parts, hlist, List.splitOn_cons_eq_if_modifyHead]

/-- The parts of a spelled place: blanks for the root, and its names. -/
theorem parts_spell {r : String} (hr : IsRoot r) {place : Place}
    (h : ∀ name ∈ place, Plain name) :
    ∃ blanks, (blanks = [] ∨ blanks = [""]) ∧
      parts (spell r place) = "" :: (blanks ++ if place = [] then [""] else place.reverse) := by
  have hnames : parts ("/".intercalate place.reverse) =
      if place = [] then [""] else place.reverse := by
    have hsplit := splitOn_intercalate_names fun name hmem => h name (List.mem_reverse.mp hmem)
    simp only [List.reverse_eq_nil_iff] at hsplit
    rwa [parts, String.toList_intercalate]
  rcases hr with rfl | rfl
  · exact ⟨[], .inl rfl, by simp [spell, hnames]⟩
  · refine ⟨[""], .inr rfl, ?_⟩
    rw [spell, show "//" = "/" ++ "/" from rfl, String.append_assoc, parts_slash_append,
      parts_slash_append, hnames, List.singleton_append]

theorem destination_spell {r : String} (hr : IsRoot r) {place : Place}
    (h : ∀ name ∈ place, Plain name) : destination (spell r place) = place := by
  obtain ⟨blanks, hblanks, hparts⟩ := parts_spell hr h
  have hfold : (if place = [] then [""] else place.reverse).foldl enter [] = place := by
    split
    · rename_i hnil
      simp [hnil]
    · rw [foldl_enter_of_plain fun name hmem => h name (List.mem_reverse.mp hmem)]
      simp
  rw [destination, hparts, List.foldl_cons, enter_empty, List.foldl_append]
  rcases hblanks with rfl | rfl
  · exact hfold
  · rw [List.foldl_cons, enter_empty]
    exact hfold

theorem toList_spell_of_cons {name : String} {names : List String} {r : String}
    {place : Place} (h : place.reverse = name :: names) :
    ∃ rest, (spell r place).toList = r.toList ++ (name.toList ++ rest) := by
  simp only [spell, h, String.toList_append, String.toList_intercalate, List.map_cons]
  rcases names with _ | ⟨second, others⟩
  · exact ⟨[], by simp⟩
  · exact ⟨_, by rw [List.map_cons, List.intercalate_cons_cons, List.append_assoc]⟩

theorem root_spell {r : String} (hr : IsRoot r) {place : Place}
    (h : ∀ name ∈ place, Plain name) : root (spell r place).toList = r := by
  rcases hplace : place.reverse with _ | ⟨name, names⟩
  · rcases hr with rfl | rfl <;> simp [spell, hplace, root]
  · have hplain : Plain name := h name (List.mem_reverse.mp (by simp [hplace]))
    obtain ⟨rest, hlist⟩ := toList_spell_of_cons (r := r) hplace
    rcases hname : name.toList with _ | ⟨c, tail⟩
    · exact (hplain.1 (String.toList_eq_nil_iff.mp hname)).elim
    · have hc : c ≠ '/' := fun heq => hplain.2.2.2 (by simp [hname, heq])
      rw [hlist, hname]
      rcases hr with rfl | rfl
      · simp only [show "/".toList = ['/'] from rfl, List.cons_append, List.nil_append]
        simp [root, hc]
      · simp only [show "//".toList = ['/', '/'] from rfl, List.cons_append, List.nil_append]
        simp [root, hc]

theorem isAbsolute_append {r : String} (h : isAbsolute r = true) (text : String) :
    isAbsolute (r ++ text) = true := by
  unfold isAbsolute at h ⊢
  rcases hlist : r.toList with _ | ⟨c, rest⟩
  · simp [hlist] at h
  · simpa [hlist] using h

theorem isAbsolute_spell {r : String} (hr : IsRoot r) (place : Place) :
    isAbsolute (spell r place) = true :=
  isAbsolute_append (by rcases hr with rfl | rfl <;> rfl) _

theorem canonical_spell {r : String} (hr : IsRoot r) {place : Place}
    (h : ∀ name ∈ place, Plain name) : Canonical (spell r place) := by
  refine ⟨isAbsolute_spell hr place, ?_⟩
  rw [normalize_of_isAbsolute (isAbsolute_spell hr place), root_spell hr h,
    destination_spell hr h]

theorem canonical_normalize {path : String} (h : isAbsolute path = true) :
    Canonical (normalize path) := by
  rw [normalize_of_isAbsolute h]
  exact canonical_spell (isRoot_root h) (plain_destination path)

/-- A canonical path spells the place that it leads to. -/
theorem Canonical.eq_spell {path : String} (h : Canonical path) :
    path = spell (root path.toList) (destination path) :=
  h.2.symm.trans (normalize_of_isAbsolute h.1)

theorem exists_slash_append {path : String} (h : isAbsolute path = true) :
    ∃ text, path = "/" ++ text := by
  rcases hlist : path.toList with _ | ⟨c, rest⟩
  · simp [isAbsolute, hlist] at h
  · obtain rfl : c = '/' := by simpa [isAbsolute, hlist] using h
    refine ⟨String.ofList rest, ?_⟩
    rw [← String.toList_inj, hlist]
    simp

/-- The first part of an absolute path is empty and leads nowhere. -/
theorem foldl_tail_parts {path : String} (h : isAbsolute path = true) :
    (parts path).tail.foldl enter [] = destination path := by
  obtain ⟨text, rfl⟩ := exists_slash_append h
  simp [destination]

theorem isAbsolute_join {directory : String} (h : isAbsolute directory = true) (name : String) :
    isAbsolute (join directory name) = true := by
  unfold join
  split
  · assumption
  · split
    · exact isAbsolute_append h _
    · exact isAbsolute_append (isAbsolute_append h _) _

/-- The directory of an absolute path is absolute: a path with a slash in front has a last slash. -/
theorem isAbsolute_directoryOf {path : String} (h : isAbsolute path = true) :
    isAbsolute (directoryOf path) = true := by
  unfold isAbsolute at h
  rcases hlist : path.toList with _ | ⟨c, rest⟩
  · simp [hlist] at h
  · have hc : c = '/' := by simpa [hlist] using h
    rcases hrest : beforeLastSlash rest with _ | front
    · simp [isAbsolute, directoryOf, beforeLastSlash, hlist, hrest, hc]
    · simp [isAbsolute, directoryOf, beforeLastSlash, hlist, hrest, hc]

/-- An absolute path has one canonical form, wherever it is looked at from. -/
theorem canonicalize?_of_isAbsolute {path : String} (h : isAbsolute path = true)
    (here : Standpoint) : canonicalize? here path = some (normalize path) := by
  have hhead : path.toList.head? ≠ some '~' := by
    intro heq
    simp [isAbsolute, heq] at h
  rw [canonicalize?_of_head_ne hhead, absolutize, if_pos h]

theorem canonical_absolutize {workingDirectory : String}
    (h : isAbsolute workingDirectory = true) (path : String) :
    Canonical (absolutize workingDirectory path) := by
  unfold absolutize
  split
  · rename_i hpath
    exact canonical_normalize hpath
  · exact canonical_normalize (isAbsolute_join h path)

theorem canonical_of_canonicalize? {here : Standpoint} {path canonical : String}
    (hhere : isAbsolute here.workingDirectory = true)
    (h : canonicalize? here path = some canonical) : Canonical canonical := by
  obtain ⟨expanded, -, rfl⟩ := Option.map_eq_some_iff.mp h
  exact canonical_absolutize hhere expanded

/-- Only an anchored path with a NUL character asks for the home of an impossible user. -/
theorem expandHome?_eq_none {here : Standpoint} {path : String}
    (h : expandHome? here path = none) : isAnchored path = true ∧ '\x00' ∈ path.toList := by
  unfold expandHome? at h
  split at h
  · rename_i user rest hsplit
    obtain ⟨hpath, -, -⟩ := splitHome?_eq_some_iff.mp hsplit
    split at h
    · rename_i hmem
      refine ⟨by simp [isAnchored, hpath], ?_⟩
      rw [hpath]
      exact List.mem_cons_of_mem _ (List.mem_append_left _ hmem)
    · split at h <;> cases h
  · cases h

theorem normalize_ne_empty (path : String) : normalize path ≠ "" := by
  have hdot (text : String) : (if text = "" then "." else text) ≠ "" := by
    split
    · decide
    · assumption
  exact hdot _

end ScriptLoader.Path

namespace ScriptLoader.Resolve

theorem canonical_of_canonical {machine : Machine} {path canonical : String}
    (hmachine : Path.isAbsolute machine.workingDirectory = true)
    (h : Resolve.canonical machine path = .ok canonical) : Path.Canonical canonical := by
  unfold Resolve.canonical at h
  split at h
  · rename_i found heq
    cases h
    exact Path.canonical_of_canonicalize? hmachine heq
  · cases h

theorem ne_empty_of_canonical {machine : Machine} {path canonical : String}
    (h : Resolve.canonical machine path = .ok canonical) : canonical ≠ "" := by
  unfold Resolve.canonical at h
  split at h
  · rename_i found heq
    cases h
    obtain ⟨expanded, -, rfl⟩ := Option.map_eq_some_iff.mp heq
    exact Path.normalize_ne_empty _
  · cases h

/-- What a name is resolved to is the canonical form of some path. -/
theorem exists_canonical_of_resolve {machine : Machine} {directories : List String}
    {requested caller path : String}
    (h : resolve machine directories requested caller = .ok path) :
    ∃ spelled, canonical machine spelled = .ok path := by
  unfold resolve at h
  split at h
  · split at h
    · cases h
    · rename_i found heq
      split at h
      · cases h
        exact ⟨requested, heq⟩
      · cases h
  · split at h
    · exact ⟨_, h⟩
    · cases h

theorem canonical_of_resolve {machine : Machine} {directories : List String}
    {requested caller path : String}
    (hmachine : Path.isAbsolute machine.workingDirectory = true)
    (h : resolve machine directories requested caller = .ok path) : Path.Canonical path := by
  obtain ⟨spelled, hspelled⟩ := exists_canonical_of_resolve h
  exact canonical_of_canonical hmachine hspelled

theorem ne_empty_of_resolve {machine : Machine} {directories : List String}
    {requested caller path : String}
    (h : resolve machine directories requested caller = .ok path) : path ≠ "" := by
  obtain ⟨spelled, hspelled⟩ := exists_canonical_of_resolve h
  exact ne_empty_of_canonical hspelled

end ScriptLoader.Resolve

namespace ScriptLoader.Files

def spellings (files : Files) : List String :=
  (files.nodes.filter fun entry => entry.2 != .directory).flatMap fun entry =>
    [Path.spell "/" entry.1, Path.spell "//" entry.1]

@[simp] theorem length_spellings (files : Files) : files.spellings.length = 2 * files.count := by
  simp only [spellings, count, List.length_flatMap, List.length_cons, List.length_nil,
    List.map_const', List.sum_replicate_nat]
  omega

end ScriptLoader.Files

namespace ScriptLoader.Machine

/-- No file has a path with a NUL character. -/
theorem nul_not_mem_of_isFile {machine : Machine} {path : String}
    (h : machine.isFile path = true) : '\x00' ∉ path.toList := by
  intro hmem
  have hlocate : ∃ error, machine.locate path = .error error := by
    by_cases hempty : path = ""
    · exact ⟨.absent, by rw [locate, if_pos hempty]⟩
    · exact ⟨.nulCharacter, by rw [locate, if_neg hempty, if_pos hmem]⟩
  obtain ⟨error, hlocate⟩ := hlocate
  simp [isFile, node, hlocate] at h

/-- What is at an absolute path is at the place that the path leads to. -/
theorem node?_destination_of_node {machine : Machine} {path : String}
    (h : Path.isAbsolute path = true) {node : Node} (hnode : machine.node path = .ok node) :
    machine.files.node? (Path.destination path) = some node := by
  unfold Machine.node at hnode
  rcases hlocate : machine.locate path with error | place
  · rw [hlocate] at hnode
    cases hnode
  · have hplace : place = Path.destination path := by
      unfold locate at hlocate
      split at hlocate
      · cases hlocate
      · split at hlocate
        · cases hlocate
        · split at hlocate
          · cases hlocate
          · rename_i goal hwalk
            have hgoal := Files.eq_foldl_of_walk hwalk
            rw [show machine.fullPath path = path from if_pos h, Path.foldl_tail_parts h] at hgoal
            split at hlocate
            · cases hlocate
              exact hgoal
            · cases hlocate
    simp only [hlocate] at hnode
    split at hnode
    · rename_i found hfound
      cases hnode
      rw [← hplace]
      exact hfound
    · cases hnode

/-- A canonical path with a file at it is one of the two paths of the file's place. -/
theorem mem_spellings {machine : Machine} {path : String} (canonical : Path.Canonical path)
    (isFile : machine.isFile path = true) : path ∈ machine.files.spellings := by
  unfold Machine.isFile at isFile
  split at isFile
  · rename_i content hnode
    have hlookup := node?_destination_of_node canonical.1 hnode
    obtain ⟨before, after, hnodes, -⟩ := List.lookup_eq_some_iff.mp hlookup
    have hmem : (Path.destination path, Node.file content) ∈
        machine.files.nodes.filter fun entry => entry.2 != .directory := by
      rw [List.mem_filter, hnodes]
      exact ⟨by simp, rfl⟩
    refine List.mem_flatMap.mpr ⟨_, hmem, ?_⟩
    have hspell := canonical.eq_spell
    rcases Path.isRoot_root canonical.1 with hroot | hroot
    · rw [hroot] at hspell
      exact List.mem_cons.mpr (.inl hspell)
    · rw [hroot] at hspell
      exact List.mem_cons_of_mem _ (List.mem_singleton.mpr hspell)
  · cases isFile

end ScriptLoader.Machine
