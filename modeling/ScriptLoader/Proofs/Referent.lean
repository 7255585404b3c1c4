import ScriptLoader.Proofs.Spelling

/-!
What paths lead to. A path that arrives somewhere leads through directories only, so everything
above the place is a directory. So the canonical form of the path, which goes straight to the same
place, arrives there as well.
-/

namespace ScriptLoader

namespace Path

variable {c : Char} {front back path name directory r : String} {place : Place}

@[simp] theorem parts_append_slash (front back : String) :
    parts (front ++ "/" ++ back) = parts front ++ parts back := by
  have hlist : (front ++ "/" ++ back).toList = front.toList ++ '/' :: back.toList := by simp
  rw [parts, hlist, List.splitOn_append_cons_self, List.map_append]
  rfl

theorem destination_append_slash (front back : String) :
    destination (front ++ "/" ++ back) = (parts back).foldl enter (destination front) := by
  simp [destination]

/-- Another slash behind a directory changes nothing. -/
theorem destination_join (absolute : isAbsolute directory = true)
    (relative : isAbsolute name = false) :
    destination (join directory name) = destination (directory ++ "/" ++ name) := by
  have hne : directory ≠ "" := by
    rintro rfl
    cases absolute
  rw [join, relative, if_neg (by simp)]
  split
  · rename_i hslash
    obtain ⟨chars, hchars⟩ := List.getLast?_eq_some_iff.mp (hslash.resolve_left hne)
    obtain rfl : directory = String.ofList chars ++ "/" := by
      rw [← String.toList_inj, hchars]
      simp
    have hblank : destination (String.ofList chars ++ "/") = destination (String.ofList chars) := by
      have hback := destination_append_slash (String.ofList chars) ""
      rwa [String.append_empty] at hback
    rw [destination_append_slash, destination_append_slash, hblank]
  · rfl

/-- There is a part behind the root of an absolute path. -/
theorem exists_tail_parts (h : isAbsolute path = true) :
    ∃ part rest, (parts path).tail = part :: rest := by
  obtain ⟨text, rfl⟩ := exists_slash_append h
  rw [parts_slash_append, List.tail_cons]
  exact List.exists_cons_of_ne_nil (by simp [parts, List.splitOn_ne_nil])

/-! ### Characters -/

theorem mem_of_mem_splitOn {s part : List Char} (hpart : part ∈ s.splitOn '/') (hc : c ∈ part) :
    c ∈ s := by
  induction s generalizing part with
  | nil =>
      rw [List.splitOn_nil, List.mem_singleton] at hpart
      rwa [hpart] at hc
  | cons d rest ih =>
      rw [List.splitOn_cons_eq_if_modifyHead] at hpart
      split at hpart
      · rcases List.mem_cons.mp hpart with rfl | hpart
        · cases hc
        · exact List.mem_cons_of_mem _ (ih hpart hc)
      · rcases hsplit : rest.splitOn '/' with _ | ⟨first, others⟩
        · simp [hsplit] at hpart
        · rw [hsplit, List.modifyHead_cons] at hpart
          rcases List.mem_cons.mp hpart with rfl | hpart
          · rcases List.mem_cons.mp hc with rfl | hc
            · exact List.mem_cons_self
            · exact List.mem_cons_of_mem _ (ih (by simp [hsplit]) hc)
          · exact List.mem_cons_of_mem _ (ih (by simp [hsplit, hpart]) hc)

theorem mem_of_mem_enter {part : String} (h : name ∈ enter place part) :
    name ∈ place ∨ name = part := by
  unfold enter at h
  split at h
  · exact .inl h
  · split at h
    · exact .inl (List.mem_of_mem_tail h)
    · exact (List.mem_cons.mp h).symm

theorem mem_of_mem_foldl_enter {names : List String} (h : name ∈ names.foldl enter place) :
    name ∈ place ∨ name ∈ names := by
  induction names generalizing place with
  | nil => exact .inl h
  | cons part rest ih =>
      rcases ih h with hplace | hrest
      · exact (mem_of_mem_enter hplace).imp_right fun heq => by simp [heq]
      · exact .inr (List.mem_cons_of_mem _ hrest)

/-- The names of a place come from the path that leads there. -/
theorem mem_of_mem_destination (h : name ∈ destination path) (hc : c ∈ name.toList) :
    c ∈ path.toList := by
  have hpart := (mem_of_mem_foldl_enter h).resolve_left List.not_mem_nil
  obtain ⟨chars, hchars, rfl⟩ := List.mem_map.mp hpart
  rw [String.toList_ofList] at hc
  exact mem_of_mem_splitOn hchars hc

theorem mem_of_mem_join (h : c ∈ (join directory name).toList) :
    c ∈ directory.toList ∨ c = '/' ∨ c ∈ name.toList := by
  unfold join at h
  split at h
  · exact .inr (.inr h)
  · split at h
    · rw [String.toList_append, List.mem_append] at h
      exact h.imp_right .inr
    · simpa [or_assoc] using h

theorem mem_of_mem_intercalate {texts : List (List Char)} (h : c ∈ ['/'].intercalate texts) :
    c = '/' ∨ ∃ text ∈ texts, c ∈ text := by
  induction texts with
  | nil => cases h
  | cons text rest ih =>
      rcases rest with _ | ⟨second, others⟩
      · rw [List.intercalate_singleton] at h
        exact .inr ⟨text, List.mem_cons_self, h⟩
      · rw [List.intercalate_cons_cons, List.append_assoc, List.mem_append, List.mem_append,
          List.mem_singleton] at h
        rcases h with hfirst | rfl | hrest
        · exact .inr ⟨text, List.mem_cons_self, hfirst⟩
        · exact .inl rfl
        · exact (ih hrest).imp_right fun ⟨other, hother, hc⟩ =>
            ⟨other, List.mem_cons_of_mem _ hother, hc⟩

theorem mem_of_mem_spell (hr : IsRoot r) (h : c ∈ (spell r place).toList) :
    c = '/' ∨ ∃ name ∈ place, c ∈ name.toList := by
  rw [spell, String.toList_append, String.toList_intercalate, List.mem_append] at h
  rcases h with hroot | hnames
  · left
    rcases hr with rfl | rfl <;> simpa using hroot
  · obtain rfl | ⟨text, htext, hc⟩ := mem_of_mem_intercalate hnames
    · exact .inl rfl
    · obtain ⟨name, hname, rfl⟩ := List.mem_map.mp htext
      exact .inr ⟨name, List.mem_reverse.mp hname, hc⟩

end Path

namespace Files

def Reachable (files : Files) (place : Place) : Prop :=
  ∀ above, above <:+ place → above ≠ place → files.node? above = some .directory

variable {files : Files} {place goal : Place} {part : String} {names : List String}

theorem reachable_nil : files.Reachable [] :=
  fun _ hsuffix hne => (hne (List.suffix_nil.mp hsuffix)).elim

theorem Reachable.tail (h : files.Reachable place) : files.Reachable place.tail := by
  rcases place with _ | ⟨name, above⟩
  · exact h
  · intro other hsuffix hne
    refine h other (hsuffix.trans (List.suffix_cons name above)) ?_
    rintro rfl
    have hle := hsuffix.length_le
    simp only [List.tail_cons, List.length_cons] at hle
    omega

theorem Reachable.cons (h : files.Reachable place)
    (directory : files.node? place = some .directory) (name : String) :
    files.Reachable (name :: place) := by
  intro above hsuffix hne
  rcases List.suffix_cons_iff.mp hsuffix with heq | hsuffix
  · exact (hne heq).elim
  · by_cases hsame : above = place
    · rw [hsame]
      exact directory
    · exact h above hsuffix hsame

theorem Reachable.enter (h : files.Reachable place)
    (directory : files.node? place = some .directory) (part : String) :
    files.Reachable (Path.enter place part) := by
  unfold Path.enter
  split
  · exact h
  · split
    · exact h.tail
    · exact h.cons directory part

theorem walk_cons_of_directory (h : files.node? place = some .directory) (part : String)
    (names : List String) :
    files.walk place (part :: names) = files.walk (Path.enter place part) names := by
  simp only [walk, h]

/-- Every part is entered from a directory. -/
theorem directory_of_walk (h : files.walk place (part :: names) = .ok goal) :
    files.node? place = some .directory := by
  simp only [walk] at h
  split at h
  · assumption
  · cases h
  · cases h

theorem Reachable.of_walk (hplace : files.Reachable place)
    (h : files.walk place names = .ok goal) : files.Reachable goal := by
  induction names generalizing place with
  | nil =>
      cases h
      exact hplace
  | cons part rest ih =>
      have directory := directory_of_walk h
      rw [walk_cons_of_directory directory] at h
      exact ih (hplace.enter directory part) h

/-- Plain names lead straight to a place below, if all on the way are directories. -/
theorem walk_of_reachable (plain : ∀ name ∈ names, Path.Plain name)
    (h : files.Reachable (names.reverse ++ place)) :
    files.walk place names = .ok (names.reverse ++ place) := by
  induction names generalizing place with
  | nil => rfl
  | cons name rest ih =>
      obtain ⟨hempty, hdot, hup, -⟩ := plain name List.mem_cons_self
      rw [List.reverse_cons, List.append_assoc, List.singleton_append] at h ⊢
      have directory : files.node? place = some .directory := by
        refine h place ((List.suffix_cons name place).trans (List.suffix_append _ _)) ?_
        intro heq
        have hlength := congrArg List.length heq
        simp at hlength
        omega
      rw [walk_cons_of_directory directory, Path.enter_name hempty hdot hup]
      exact ih (fun other hmem => plain other (List.mem_cons_of_mem _ hmem)) h

/-- Canonical paths lead straight to their place. -/
theorem walk_spell {r : String} (hr : Path.IsRoot r) (plain : ∀ name ∈ place, Path.Plain name)
    (root : files.node? [] = some .directory) (reachable : files.Reachable place) :
    files.walk [] (Path.parts (Path.spell r place)).tail = .ok place := by
  have hnames : files.walk [] (if place = [] then [""] else place.reverse) = .ok place := by
    split
    · rename_i hnil
      rw [walk_cons_of_directory root, hnil]
      rfl
    · have hreverse : place.reverse.reverse ++ [] = place := by simp
      rw [walk_of_reachable (fun name hmem => plain name (List.mem_reverse.mp hmem))
        (by rwa [hreverse]), hreverse]
  obtain ⟨blanks, hblanks, hparts⟩ := Path.parts_spell hr plain
  rw [hparts, List.tail_cons]
  rcases hblanks with rfl | rfl
  · exact hnames
  · rw [List.cons_append, walk_cons_of_directory root, Path.enter_empty]
    exact hnames

end Files

namespace Machine

variable {machine : Machine} {path r : String} {place : Place}

/-- The text that becomes the canonical form of a path when it is normalized. -/
def completed (machine : Machine) (path : String) : String :=
  if Path.isAbsolute path then path else Path.join machine.workingDirectory path

def rootOf (machine : Machine) (path : String) : String :=
  Path.root (machine.completed path).toList

theorem isAbsolute_completed (absolute : Path.isAbsolute machine.workingDirectory = true)
    (path : String) : Path.isAbsolute (machine.completed path) = true := by
  unfold completed
  split
  · assumption
  · exact Path.isAbsolute_join absolute path

theorem isRoot_rootOf (absolute : Path.isAbsolute machine.workingDirectory = true) (path : String) :
    Path.IsRoot (machine.rootOf path) :=
  Path.isRoot_root (isAbsolute_completed absolute path)

theorem isAbsolute_fullPath (absolute : Path.isAbsolute machine.workingDirectory = true)
    (path : String) : Path.isAbsolute (machine.fullPath path) = true := by
  unfold fullPath
  split
  · assumption
  · exact Path.isAbsolute_append (Path.isAbsolute_append absolute _) _

/-- A path leads to the same place as what it is looked up as. -/
theorem destination_completed (absolute : Path.isAbsolute machine.workingDirectory = true)
    (path : String) :
    Path.destination (machine.completed path) = Path.destination (machine.fullPath path) := by
  rcases hpath : Path.isAbsolute path with _ | _
  · rw [completed, fullPath, hpath]
    exact Path.destination_join absolute hpath
  · rw [completed, fullPath, hpath]
    rfl

/-- A path that can be written can be completed. -/
theorem nul_not_mem_completed (writable : '\x00' ∉ machine.workingDirectory.toList)
    (h : '\x00' ∉ path.toList) : '\x00' ∉ (machine.completed path).toList := by
  unfold completed
  split
  · exact h
  · intro hmem
    rcases Path.mem_of_mem_join hmem with hdirectory | hslash | hname
    · exact writable hdirectory
    · cases hslash
    · exact h hname

/-- A path that leads to a place can be written, and its parts lead there. -/
theorem walk_of_locate (h : machine.locate path = .ok place) :
    '\x00' ∉ path.toList ∧
      machine.files.walk [] (Path.parts (machine.fullPath path)).tail = .ok place ∧
      (machine.files.node? place).isSome = true := by
  unfold locate at h
  split at h
  · cases h
  · split at h
    · cases h
    · rename_i hnul
      split at h
      · cases h
      · rename_i goal hwalk
        split at h
        · rename_i present
          cases h
          exact ⟨hnul, hwalk, present⟩
        · cases h

theorem destination_of_locate (absolute : Path.isAbsolute machine.workingDirectory = true)
    (h : machine.locate path = .ok place) : Path.destination (machine.fullPath path) = place := by
  obtain ⟨-, hwalk, -⟩ := walk_of_locate h
  rw [Files.eq_foldl_of_walk hwalk, Path.foldl_tail_parts (isAbsolute_fullPath absolute path)]

/-- Where a canonical path leads. -/
theorem locate_spell (hr : Path.IsRoot r) (plain : ∀ name ∈ place, Path.Plain name)
    (nul : ∀ name ∈ place, '\x00' ∉ name.toList)
    (root : machine.files.node? [] = some .directory) (reachable : machine.files.Reachable place)
    (present : (machine.files.node? place).isSome = true) :
    machine.locate (Path.spell r place) = .ok place := by
  have hempty : Path.spell r place ≠ "" := Path.append_ne_empty hr.ne_empty _
  have hnul : '\x00' ∉ (Path.spell r place).toList := by
    intro hmem
    obtain hslash | ⟨name, hname, hc⟩ := Path.mem_of_mem_spell hr hmem
    · cases hslash
    · exact nul name hname hc
  have hfull : machine.fullPath (Path.spell r place) = Path.spell r place :=
    if_pos (Path.isAbsolute_spell hr place)
  have hwalk := Files.walk_spell hr plain root reachable
  rw [locate, if_neg hempty, if_neg hnul, hfull, hwalk]
  exact if_pos present

/-- The canonical form of a path leads where the path leads. -/
theorem locate_absolutize (absolute : Path.isAbsolute machine.workingDirectory = true)
    (writable : '\x00' ∉ machine.workingDirectory.toList) (h : machine.locate path = .ok place) :
    Path.absolutize machine.workingDirectory path = Path.spell (machine.rootOf path) place ∧
      machine.locate (Path.absolutize machine.workingDirectory path) = .ok place := by
  obtain ⟨hnul, hwalk, present⟩ := walk_of_locate h
  have hplace : Path.destination (machine.completed path) = place := by
    rw [destination_completed absolute, destination_of_locate absolute h]
  have hspell : Path.absolutize machine.workingDirectory path =
      Path.spell (machine.rootOf path) place := by
    rw [← hplace]
    exact Path.normalize_of_isAbsolute (isAbsolute_completed absolute path)
  have plain : ∀ name ∈ place, Path.Plain name := by
    rw [← hplace]
    exact Path.plain_destination _
  have nul : ∀ name ∈ place, '\x00' ∉ name.toList := by
    rw [← hplace]
    exact fun name hname hc =>
      nul_not_mem_completed writable hnul (Path.mem_of_mem_destination hname hc)
  have reachable := Files.reachable_nil.of_walk hwalk
  obtain ⟨part, rest, hparts⟩ := Path.exists_tail_parts (isAbsolute_fullPath absolute path)
  rw [hparts] at hwalk
  have root := Files.directory_of_walk hwalk
  refine ⟨hspell, ?_⟩
  rw [hspell]
  exact locate_spell (isRoot_rootOf absolute path) plain nul root reachable present

/-- What there is at a path depends on the place that the path leads to alone. -/
theorem node_eq_of_locate {other : String} (h : machine.locate path = .ok place)
    (hother : machine.locate other = .ok place) : machine.node path = machine.node other := by
  rw [node, node, h, hother]

/-- The working directory is absolute and can be written, as every directory that exists. If the
lookup of a path without a home marker arrives at a file or a directory, then the path has a
canonical form, and the lookup of that arrives at the same one. Whatever the home directories are,
every path that can be written has a canonical form, and no canonical form changes when it is
made canonical again, wherever that is done. -/
theorem locate_canonicalize {machine : Machine}
    (absolute : Path.isAbsolute machine.workingDirectory = true)
    (writable : '\x00' ∉ machine.workingDirectory.toList) :
    (∀ path place, path.toList.head? ≠ some '~' → machine.locate path = .ok place →
      ∃ canonical, Path.canonicalize? machine.toStandpoint path = some canonical ∧
        Path.Canonical canonical ∧ machine.locate canonical = .ok place ∧
        machine.node canonical = machine.node path) ∧
    ∀ home users path,
      ('\x00' ∉ path.toList → ∃ canonical,
        Path.canonicalize? ⟨machine.workingDirectory, home, users⟩ path = some canonical) ∧
      ∀ canonical,
        Path.canonicalize? ⟨machine.workingDirectory, home, users⟩ path = some canonical →
        ∀ here, Path.canonicalize? here canonical = some canonical := by
  refine ⟨fun path place unmarked arrives => ?_, fun home users path => ⟨fun nul => ?_, ?_⟩⟩
  · obtain ⟨-, there⟩ := locate_absolutize absolute writable arrives
    exact ⟨_, Path.canonicalize?_of_head_ne unmarked _, Path.canonical_absolutize absolute path,
      there, node_eq_of_locate there arrives⟩
  · refine Option.ne_none_iff_exists'.mp fun hnone => nul ?_
    exact (Path.expandHome?_eq_none (Option.map_eq_none_iff.mp hnone)).2
  · intro canonical hcanonical here
    have fixed : Path.Canonical canonical :=
      @Path.canonical_of_canonicalize? ⟨machine.workingDirectory, home, users⟩ _ _ absolute
        hcanonical
    rw [Path.canonicalize?_of_isAbsolute fixed.1, fixed.2]

/-- The working directory is `/w/d`, and there is a file beside it. -/
def besideMachine : Machine :=
  ⟨⟨"/w/d", "h/", []⟩, .build [["d", "w"]] [(["x", "w"], .ofText "")]⟩

/-- One path steps up beyond the root and comes back, the other one names a directory behind two
slashes. The home directory is a relative path. -/
theorem locate_canonicalize_besideMachine :
    Path.isAbsolute besideMachine.workingDirectory = true ∧
      '\x00' ∉ besideMachine.workingDirectory.toList ∧
      besideMachine.locate "..//./../../w/d/../x" = .ok ["x", "w"] ∧
      (∃ canonical, Path.canonicalize? besideMachine.toStandpoint "..//./../../w/d/../x" =
        some canonical ∧ besideMachine.locate canonical = .ok ["x", "w"]) ∧
      besideMachine.locate "//w/d//.." = .ok ["w"] ∧
      (∃ canonical, Path.canonicalize? besideMachine.toStandpoint "//w/d//.." = some canonical ∧
        besideMachine.locate canonical = .ok ["w"]) ∧
      ∃ canonical, Path.canonicalize? ⟨"/w/d", "h/", [("u", "/k")]⟩ "~/../x" = some canonical ∧
        Path.canonicalize? ⟨"/", "/h", []⟩ canonical = some canonical := by
  have absolute : Path.isAbsolute besideMachine.workingDirectory = true := by decide
  have writable : '\x00' ∉ besideMachine.workingDirectory.toList := by decide
  have hfile : besideMachine.locate "..//./../../w/d/../x" = .ok ["x", "w"] := by rfl
  have hdirectory : besideMachine.locate "//w/d//.." = .ok ["w"] := by rfl
  obtain ⟨keeps, again⟩ := locate_canonicalize absolute writable
  obtain ⟨path, hpath, -, hthere, -⟩ := keeps _ _ (by decide) hfile
  obtain ⟨path', hpath', -, hthere', -⟩ := keeps _ _ (by decide) hdirectory
  obtain ⟨canonical, hcanonical⟩ := (again "h/" [("u", "/k")] "~/../x").1 (by decide)
  exact ⟨absolute, writable, hfile, ⟨path, hpath, hthere⟩, hdirectory, ⟨path', hpath', hthere'⟩,
    canonical, hcanonical, (again "h/" [("u", "/k")] "~/../x").2 canonical hcanonical _⟩

/-- A canonical form may lead somewhere although the path does not: it skips what is missing. -/
example : besideMachine.isPresent "/none/../w/x" = false ∧
    Path.canonicalize? besideMachine.toStandpoint "/none/../w/x" = some "/w/x" ∧
    besideMachine.isPresent "/w/x" = true := by
  decide +kernel

end Machine

end ScriptLoader
