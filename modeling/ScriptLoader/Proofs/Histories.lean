import ScriptLoader.Proofs.Queries

/-!
What a cache has to say after any history: paths were checked, dropped and dropped all at once, and
between two of these the files were changed in some way. For each path the cache gives what the last
check found, as long as that is in force. The paths stand in the order in which they were first
checked, counted from where they were last dropped, whatever the checks in between have found.
-/

namespace ScriptLoader

/-! ### Checks that fail -/

theorem Machine.signature_of_nul_mem {machine : Machine} {algorithm : Digest.Algorithm}
    {path : String} (h : '\x00' ∈ path.toList) :
    machine.signature algorithm path = .error (.unreadable path .nulCharacter) := by
  have hne : path ≠ "" := by
    rintro rfl
    cases h
  have hread : machine.read path = .error .nulCharacter := by
    rw [read, node, locate, if_neg hne, if_pos h]
  simp only [signature, hread]

theorem Machine.exists_signature_iff {machine : Machine} {algorithm : Digest.Algorithm}
    {path : String} :
    (∃ signature, machine.signature algorithm path = .ok (some signature)) ↔
      ∃ bytes, machine.read path = .ok bytes := by
  unfold signature
  rcases machine.read path with error | bytes
  · cases error <;> simp
  · simp

namespace Cache

def Checkable (path : String) : Prop :=
  Path.Canonical path ∧ '\x00' ∉ path.toList

theorem check_of_checkable {path : String} (h : Checkable path) (cache : Cache)
    (machine : Machine) :
    ∃ signature, machine.signature cache.algorithm path = .ok signature ∧
      cache.check machine path = .ok
        ((cache.signatureOf path).isSome && cache.signatureOf path == signature,
          cache.record path signature) := by
  obtain ⟨canonical, writable⟩ := h
  obtain ⟨signature, hsignature⟩ : ∃ signature,
      machine.signature cache.algorithm path = .ok signature :=
    Machine.exists_signature_of_writable writable
  exact ⟨signature, hsignature, check_of_signature canonical hsignature⟩

theorem check_of_nul_mem {path : String} (canonical : Path.Canonical path)
    (h : '\x00' ∈ path.toList) (cache : Cache) (machine : Machine) :
    cache.check machine path = .error (.unreadable path .nulCharacter) := by
  rw [check, if_pos canonical, Machine.signature_of_nul_mem h]

theorem exists_check_error_iff {cache : Cache} {machine : Machine} {path : String} :
    (∃ fault, cache.check machine path = .error fault) ↔ ¬Checkable path := by
  constructor
  · rintro ⟨fault, hfault⟩ checkable
    obtain ⟨signature, -, hcheck⟩ := check_of_checkable checkable cache machine
    cases hfault.symm.trans hcheck
  · intro h
    by_cases canonical : Path.Canonical path
    · have hnul : '\x00' ∈ path.toList := not_not.mp fun writable => h ⟨canonical, writable⟩
      exact ⟨_, check_of_nul_mem canonical hnul cache machine⟩
    · exact ⟨_, check_of_not_canonical canonical⟩

/-! ### The paths on record -/

def keys (cache : Cache) : List String := cache.records.map (·.1)

theorem isSome_lookup_iff {cache : Cache} {path : String} :
    (cache.records.lookup path).isSome = true ↔ path ∈ cache.keys := by
  rw [keys]
  induction cache.records with
  | nil => simp
  | cons record rest ih =>
      obtain ⟨key, signature⟩ := record
      by_cases h : path = key
      · simp [h]
      · simp only [List.lookup_cons, beq_false_of_ne h, ih, List.map_cons, List.mem_cons, h,
          false_or]

theorem keys_record (cache : Cache) (path : String) (signature : Option Signature) :
    (cache.record path signature).keys =
      if (cache.records.lookup path).isSome then cache.keys else cache.keys ++ [path] := by
  unfold record keys
  split
  · rw [List.map_map]
    refine List.map_congr_left fun old _ => ?_
    show (if old.1 = path then (path, signature) else old).1 = old.1
    split
    · exact (‹old.1 = path›).symm
    · rfl
  · simp

@[simp] theorem keys_forget (cache : Cache) (path : String) :
    (cache.forget path).2.keys = cache.keys.filter (· ≠ path) := by
  simp only [keys, forget, List.filter_map, Function.comp_def]

/-- Behind every path with a signature there is a record. -/
theorem paths_sublist_keys (cache : Cache) : cache.paths.Sublist cache.keys :=
  List.filter_sublist.map _

/-- If no path is on record twice, those with a signature are listed. -/
theorem mem_paths_iff {cache : Cache} (nodup : cache.keys.Nodup) {path : String} :
    path ∈ cache.paths ↔ (cache.signatureOf path).isSome = true := by
  constructor
  · intro hmem
    obtain ⟨⟨key, signature⟩, hrecord, rfl⟩ := List.mem_map.mp hmem
    obtain ⟨hrecord, hsome⟩ := List.mem_filter.mp hrecord
    obtain ⟨before, after, hsplit⟩ := List.append_of_mem hrecord
    have hbefore : ∀ record ∈ before, (key != record.1) = true := by
      intro record hmem
      rw [keys, hsplit, List.map_append, List.map_cons] at nodup
      have hdisjoint := List.disjoint_of_nodup_append nodup
      have hne : key ≠ record.1 := fun heq =>
        hdisjoint (List.mem_map_of_mem hmem) (heq ▸ List.mem_cons_self)
      simpa using hne
    have hlookup : cache.records.lookup key = some signature :=
      List.lookup_eq_some_iff.mpr ⟨before, after, hsplit, hbefore⟩
    rw [signatureOf, hlookup]
    exact hsome
  · intro hsome
    rcases hlookup : cache.records.lookup path with _ | signature
    · rw [signatureOf, hlookup] at hsome
      cases hsome
    · rw [signatureOf, hlookup] at hsome
      obtain ⟨before, after, hsplit, -⟩ := List.lookup_eq_some_iff.mp hlookup
      have hmem : (path, signature) ∈ cache.records := by simp [hsplit]
      exact List.mem_map.mpr ⟨_, List.mem_filter.mpr ⟨hmem, hsome⟩, rfl⟩

/-! ### Histories -/

inductive Use where
  | check (path : String)
  | forget (path : String)
  | reset
  | edit (change : Machine → Machine)

structure Watch where
  cache : Cache
  machine : Machine

namespace Watch

/-- A check that fails leaves everything as it is. -/
def use (watch : Watch) : Use → Watch
  | .check path =>
    match watch.cache.check watch.machine path with
    | .ok (_, cache) => { watch with cache := cache }
    | .error _ => watch
  | .forget path => { watch with cache := (watch.cache.forget path).2 }
  | .reset => { watch with cache := watch.cache.reset }
  | .edit change => { watch with machine := change watch.machine }

def begin (algorithm : Digest.Algorithm) (machine : Machine) : Watch := ⟨.empty algorithm, machine⟩

def after (watch : Watch) (uses : List Use) : Watch := uses.foldl use watch

@[simp] theorem after_concat (watch : Watch) (uses : List Use) (last : Use) :
    watch.after (uses ++ [last]) = (watch.after uses).use last :=
  List.foldl_concat use watch last uses

theorem use_check_of_checkable {path : String} (h : Checkable path) (watch : Watch) :
    ∃ signature, watch.machine.signature watch.cache.algorithm path = .ok signature ∧
      watch.use (.check path) = { watch with cache := watch.cache.record path signature } := by
  obtain ⟨signature, hsignature, hcheck⟩ := check_of_checkable h watch.cache watch.machine
  refine ⟨signature, hsignature, ?_⟩
  simp only [use, hcheck]

theorem use_check_of_not_checkable {path : String} (h : ¬Checkable path) (watch : Watch) :
    watch.use (.check path) = watch := by
  have hfailed : ∃ fault, watch.cache.check watch.machine path = .error fault :=
    exists_check_error_iff.mpr h
  obtain ⟨fault, hcheck⟩ := hfailed
  simp only [use, hcheck]

theorem algorithm_use (watch : Watch) (use : Use) :
    (watch.use use).cache.algorithm = watch.cache.algorithm := by
  cases use with
  | check path =>
      by_cases h : Checkable path
      · obtain ⟨signature, -, heq⟩ := use_check_of_checkable h watch
        rw [heq]
        rfl
      · rw [use_check_of_not_checkable h]
  | _ => rfl

@[simp] theorem algorithm_after (watch : Watch) (uses : List Use) :
    (watch.after uses).cache.algorithm = watch.cache.algorithm := by
  induction uses using List.reverseRecOn with
  | nil => rfl
  | append_singleton uses last ih => simp [algorithm_use, ih]

end Watch

def Use.Drops (path : String) : Use → Prop
  | .forget dropped => dropped = path
  | .reset => True
  | _ => False

/-- A check of the path that is in force: it comes after the earlier uses, it did not fail, and the
path has not been dropped since. -/
structure CheckAt (path : String) (uses earlier later : List Use) : Prop where
  split : uses = earlier ++ .check path :: later
  checkable : Checkable path
  kept : ∀ use ∈ later, ¬use.Drops path

structure LastCheck (path : String) (uses earlier later : List Use) : Prop
    extends CheckAt path uses earlier later where
  last : ∀ use ∈ later, use ≠ .check path

structure FirstCheck (path : String) (uses earlier later : List Use) : Prop
    extends CheckAt path uses earlier later where
  fresh : ∀ before between, ¬CheckAt path earlier before between

theorem concat_eq_append_cons_iff {α : Type} {xs before after : List α} {last x : α} :
    xs ++ [last] = before ++ x :: after ↔
      last = x ∧ xs = before ∧ after = [] ∨
        ∃ front, after = front ++ [last] ∧ xs = before ++ x :: front := by
  constructor
  · intro h
    rcases List.eq_nil_or_concat after with rfl | ⟨front, final, rfl⟩
    · obtain ⟨rfl, hlast⟩ := List.append_inj' h rfl
      exact .inl ⟨List.head_eq_of_cons_eq hlast, rfl, rfl⟩
    · rw [List.concat_eq_append, ← List.cons_append, ← List.append_assoc] at h
      obtain ⟨hfront, hlast⟩ := List.append_inj' h rfl
      cases hlast
      exact .inr ⟨front, List.concat_eq_append, hfront⟩
  · rintro (⟨rfl, rfl, rfl⟩ | ⟨front, rfl, rfl⟩)
    · rfl
    · simp

variable {path : String} {uses earlier later : List Use} {use : Use}

theorem CheckAt.self (checkable : Checkable path) :
    CheckAt path (uses ++ [.check path]) uses [] where
  split := rfl
  checkable := checkable
  kept := by simp

theorem CheckAt.concat (h : CheckAt path uses earlier later) (kept : ¬use.Drops path) :
    CheckAt path (uses ++ [use]) earlier (later ++ [use]) where
  split := by simp [h.split]
  checkable := h.checkable
  kept := by
    intro other hmem
    rcases List.mem_append.mp hmem with hmem | hmem
    · exact h.kept other hmem
    · rwa [List.mem_singleton.mp hmem]

theorem CheckAt.of_concat (h : CheckAt path (uses ++ [use]) earlier later) :
    use = .check path ∧ uses = earlier ∧ later = [] ∨
      ∃ front, later = front ++ [use] ∧ CheckAt path uses earlier front ∧ ¬use.Drops path := by
  obtain ⟨split, checkable, kept⟩ := h
  refine (concat_eq_append_cons_iff.mp split).imp_right ?_
  rintro ⟨front, rfl, hfront⟩
  refine ⟨front, rfl, ⟨hfront, checkable, fun other hmem => ?_⟩, kept use (by simp)⟩
  exact kept other (List.mem_append_left _ hmem)

theorem LastCheck.self (checkable : Checkable path) :
    LastCheck path (uses ++ [.check path]) uses [] where
  toCheckAt := .self checkable
  last := by simp

theorem LastCheck.concat (h : LastCheck path uses earlier later) (kept : ¬use.Drops path)
    (other : use ≠ .check path) : LastCheck path (uses ++ [use]) earlier (later ++ [use]) where
  toCheckAt := h.toCheckAt.concat kept
  last := by
    intro use' hmem
    rcases List.mem_append.mp hmem with hmem | hmem
    · exact h.last use' hmem
    · rwa [List.mem_singleton.mp hmem]

theorem LastCheck.of_concat (h : LastCheck path (uses ++ [use]) earlier later) :
    use = .check path ∧ uses = earlier ∧ later = [] ∨
      ∃ front, later = front ++ [use] ∧ LastCheck path uses earlier front ∧ ¬use.Drops path ∧
        use ≠ .check path := by
  obtain ⟨check, last⟩ := h
  refine check.of_concat.imp_right ?_
  rintro ⟨front, rfl, hfront, kept⟩
  refine ⟨front, rfl, ⟨hfront, fun other hmem => ?_⟩, kept, last use (by simp)⟩
  exact last other (List.mem_append_left _ hmem)

theorem FirstCheck.concat (h : FirstCheck path uses earlier later) (kept : ¬use.Drops path) :
    FirstCheck path (uses ++ [use]) earlier (later ++ [use]) where
  toCheckAt := h.toCheckAt.concat kept
  fresh := h.fresh

theorem FirstCheck.of_concat (h : FirstCheck path (uses ++ [use]) earlier later) :
    use = .check path ∧ uses = earlier ∧ later = [] ∨
      ∃ front, later = front ++ [use] ∧ FirstCheck path uses earlier front := by
  obtain ⟨check, fresh⟩ := h
  refine check.of_concat.imp_right ?_
  rintro ⟨front, rfl, hfront, -⟩
  exact ⟨front, rfl, hfront, fresh⟩

/-- Of the checks in force, one is the last. -/
theorem CheckAt.exists_last (h : CheckAt path uses earlier later) :
    ∃ before between, LastCheck path uses before between := by
  induction uses using List.reverseRecOn generalizing earlier later with
  | nil => simpa using h.split
  | append_singleton uses use ih =>
      by_cases hcheck : use = .check path
      · rw [hcheck]
        exact ⟨uses, [], .self h.checkable⟩
      · rcases h.of_concat with ⟨hself, -⟩ | ⟨front, -, hfront, kept⟩
        · exact (hcheck hself).elim
        · obtain ⟨before, between, hlast⟩ := ih hfront
          exact ⟨before, between ++ [use], hlast.concat kept hcheck⟩

/-- Of the checks in force, one is the first. -/
theorem CheckAt.exists_first (h : CheckAt path uses earlier later) :
    ∃ before between, FirstCheck path uses before between := by
  induction uses using List.reverseRecOn generalizing earlier later with
  | nil => simpa using h.split
  | append_singleton uses use ih =>
      by_cases hstanding : ∃ before between, CheckAt path uses before between
      · obtain ⟨before, between, hcheck⟩ := hstanding
        obtain ⟨before, between, hfirst⟩ := ih hcheck
        have kept : ¬use.Drops path := by
          rcases h.of_concat with ⟨rfl, -⟩ | ⟨-, -, -, kept⟩
          · exact id
          · exact kept
        exact ⟨before, between ++ [use], hfirst.concat kept⟩
      · have fresh : ∀ before between, ¬CheckAt path uses before between := by
          simpa using hstanding
        rcases h.of_concat with ⟨rfl, rfl, rfl⟩ | ⟨front, -, hfront, -⟩
        · exact ⟨uses, [], h, fresh⟩
        · exact (fresh _ _ hfront).elim

/-! ### What is recorded after a history -/

namespace Watch

theorem lookup_use_of_drops (watch : Watch) (h : use.Drops path) :
    (watch.use use).cache.records.lookup path = none := by
  cases use with
  | check _ => cases h
  | forget dropped =>
      cases h
      exact lookup_forget_self watch.cache path
  | reset => rfl
  | edit _ => cases h

theorem lookup_use_of_kept (watch : Watch) (kept : ¬use.Drops path) (other : use ≠ .check path) :
    (watch.use use).cache.records.lookup path = watch.cache.records.lookup path := by
  cases use with
  | check checked =>
      have hne : path ≠ checked := fun h => other (h ▸ rfl)
      by_cases h : Checkable checked
      · obtain ⟨signature, -, heq⟩ := use_check_of_checkable h watch
        rw [heq]
        exact lookup_record_of_ne hne watch.cache signature
      · rw [use_check_of_not_checkable h]
  | forget dropped => exact lookup_forget_of_ne (fun h => kept h.symm) watch.cache
  | reset => exact (kept trivial).elim
  | edit _ => rfl

variable {algorithm : Digest.Algorithm} {machine : Machine}

/-- What is recorded for a path is what its last check has found. -/
theorem lookup_after {signature : Option Signature} :
    ((begin algorithm machine).after uses).cache.records.lookup path = some signature ↔
      ∃ earlier later, LastCheck path uses earlier later ∧
        ((begin algorithm machine).after earlier).machine.signature algorithm path =
          .ok signature := by
  induction uses using List.reverseRecOn with
  | nil =>
      refine iff_of_false (by simp [after, begin, empty]) ?_
      rintro ⟨earlier, later, hlast, -⟩
      simpa using hlast.split
  | append_singleton uses use ih =>
      rw [after_concat]
      by_cases hcheck : use = .check path
      · subst hcheck
        by_cases checkable : Checkable path
        · obtain ⟨found, hfound, heq⟩ :=
            use_check_of_checkable checkable ((begin algorithm machine).after uses)
          rw [algorithm_after] at hfound
          rw [heq, lookup_record_self]
          constructor
          · rintro ⟨rfl⟩
            exact ⟨uses, [], .self checkable, hfound⟩
          · rintro ⟨earlier, later, hlast, hsignature⟩
            rcases hlast.of_concat with ⟨-, rfl, -⟩ | ⟨-, -, -, -, hother⟩
            · cases hfound.symm.trans hsignature
              rfl
            · exact (hother rfl).elim
        · -- neither the check nor an earlier one of this path can succeed
          rw [use_check_of_not_checkable checkable, ih]
          constructor <;> exact fun ⟨_, _, hlast, _⟩ => (checkable hlast.checkable).elim
      · by_cases hdrops : use.Drops path
        · rw [lookup_use_of_drops _ hdrops]
          refine iff_of_false (by simp) ?_
          rintro ⟨earlier, later, hlast, -⟩
          rcases hlast.of_concat with ⟨hself, -⟩ | ⟨-, -, -, kept, -⟩
          · exact hcheck hself
          · exact kept hdrops
        · rw [lookup_use_of_kept _ hdrops hcheck, ih]
          constructor
          · rintro ⟨earlier, later, hlast, hsignature⟩
            exact ⟨earlier, later ++ [use], hlast.concat hdrops hcheck, hsignature⟩
          · rintro ⟨earlier, later, hlast, hsignature⟩
            rcases hlast.of_concat with ⟨hself, -⟩ | ⟨front, -, hfront, -⟩
            · exact (hcheck hself).elim
            · exact ⟨earlier, front, hfront, hsignature⟩

/-- A path is recorded, with or without a signature, as long as a check of it is in force. -/
theorem isSome_lookup_after :
    (((begin algorithm machine).after uses).cache.records.lookup path).isSome = true ↔
      ∃ earlier later, CheckAt path uses earlier later := by
  rw [Option.isSome_iff_exists]
  simp only [lookup_after]
  constructor
  · rintro ⟨signature, earlier, later, hlast, -⟩
    exact ⟨earlier, later, hlast.toCheckAt⟩
  · rintro ⟨earlier, later, hcheck⟩
    obtain ⟨before, between, hlast⟩ := hcheck.exists_last
    obtain ⟨signature, hsignature⟩ :=
      Machine.exists_signature_of_writable hlast.checkable.2
    exact ⟨signature, before, between, hlast, hsignature⟩

/-- The signature of a path is what its last check has found. -/
theorem signatureOf_after (algorithm : Digest.Algorithm) (machine : Machine)
    (h : LastCheck path uses earlier later) :
    ((begin algorithm machine).after earlier).machine.signature algorithm path =
      .ok (((begin algorithm machine).after uses).cache.signatureOf path) := by
  obtain ⟨signature, hsignature⟩ : ∃ signature,
      ((begin algorithm machine).after earlier).machine.signature algorithm path = .ok signature :=
    Machine.exists_signature_of_writable h.checkable.2
  have hlookup := lookup_after.mpr ⟨earlier, later, h, hsignature⟩
  rw [signatureOf, hlookup, hsignature]
  rfl

theorem signatureOf_after_of_none (h : ∀ earlier later, ¬LastCheck path uses earlier later) :
    ((begin algorithm machine).after uses).cache.signatureOf path = none := by
  rcases hlookup : ((begin algorithm machine).after uses).cache.records.lookup path with _ | found
  · rw [signatureOf, hlookup]
    rfl
  · obtain ⟨earlier, later, hlast, -⟩ := lookup_after.mp hlookup
    exact (h earlier later hlast).elim

/-! ### The order of the records -/

def Before (uses : List Use) (a b : String) : Prop :=
  ∀ earlier later earlier' later', FirstCheck a uses earlier later →
    FirstCheck b uses earlier' later' → earlier.length < earlier'.length

variable {a b : String}

/-- A path with a check in force gets no other first check. -/
theorem exists_first_of_concat (standing : ∃ before between, CheckAt path uses before between)
    (h : FirstCheck path (uses ++ [use]) earlier later) :
    ∃ front, FirstCheck path uses earlier front := by
  obtain ⟨before, between, hcheck⟩ := standing
  rcases h.of_concat with ⟨-, rfl, -⟩ | ⟨front, -, hfront⟩
  · exact (h.fresh before between hcheck).elim
  · exact ⟨front, hfront⟩

theorem Before.concat (h : Before uses a b) (ha : ∃ before between, CheckAt a uses before between)
    (hb : ∃ before between, CheckAt b uses before between) : Before (uses ++ [use]) a b := by
  intro earlier later earlier' later' hfirst hfirst'
  obtain ⟨front, hfront⟩ := exists_first_of_concat ha hfirst
  obtain ⟨front', hfront'⟩ := exists_first_of_concat hb hfirst'
  exact h earlier front earlier' front' hfront hfront'

/-- A path that is checked for the first time comes behind those that stand already. -/
theorem before_of_fresh (ha : ∃ before between, CheckAt a uses before between)
    (hb : ∀ before between, ¬CheckAt b uses before between) : Before (uses ++ [use]) a b := by
  intro earlier later earlier' later' hfirst hfirst'
  obtain ⟨front, hfront⟩ := exists_first_of_concat ha hfirst
  rcases hfirst'.of_concat with ⟨-, rfl, -⟩ | ⟨front', -, hfront'⟩
  · simp [hfront.split]
  · exact (hb _ _ hfront'.toCheckAt).elim

theorem ordered_after :
    ((begin algorithm machine).after uses).cache.keys.Pairwise fun a b =>
      a ≠ b ∧ Before uses a b := by
  induction uses using List.reverseRecOn with
  | nil => exact .nil
  | append_singleton uses use ih =>
      have standing {key : String}
          (hkey : key ∈ ((begin algorithm machine).after uses).cache.keys) :
          ∃ before between, CheckAt key uses before between :=
        isSome_lookup_after.mp (isSome_lookup_iff.mpr hkey)
      have kept : ((begin algorithm machine).after uses).cache.keys.Pairwise fun a b =>
          a ≠ b ∧ Before (uses ++ [use]) a b :=
        ih.imp_of_mem fun ha hb h => ⟨h.1, h.2.concat (standing ha) (standing hb)⟩
      rw [after_concat]
      cases use with
      | check checked =>
          by_cases checkable : Checkable checked
          · obtain ⟨signature, -, heq⟩ :=
              use_check_of_checkable checkable ((begin algorithm machine).after uses)
            rw [heq, keys_record]
            split
            · exact kept
            · rename_i hnew
              have fresh : ∀ before between, ¬CheckAt checked uses before between :=
                fun before between h => hnew (isSome_lookup_after.mpr ⟨before, between, h⟩)
              refine List.pairwise_append.mpr ⟨kept, List.pairwise_singleton _ _, ?_⟩
              intro key hkey other hother
              rw [List.mem_singleton.mp hother]
              refine ⟨?_, before_of_fresh (standing hkey) fresh⟩
              rintro rfl
              exact hnew (isSome_lookup_iff.mpr hkey)
          · rwa [use_check_of_not_checkable checkable]
      | forget dropped =>
          show (Cache.forget _ dropped).2.keys.Pairwise _
          rw [keys_forget]
          exact kept.filter _
      | reset => exact .nil
      | edit change => exact kept

end Watch

/-- What a cache that was empty has to say after a history that began with this machine. -/
structure Reports (algorithm : Digest.Algorithm) (machine : Machine) (uses : List Use)
    (cache : Cache) : Prop where
  nodup : cache.paths.Nodup
  /-- The paths are those that could be read when they were last checked. -/
  mem_paths : ∀ path, path ∈ cache.paths ↔ ∃ earlier later bytes,
    LastCheck path uses earlier later ∧
    ((Watch.begin algorithm machine).after earlier).machine.read path = .ok bytes
  exists_first : ∀ path ∈ cache.paths, ∃ earlier later, FirstCheck path uses earlier later
  ordered : cache.paths.Pairwise (Watch.Before uses)
  size_eq : cache.size = cache.paths.length
  contains_iff : ∀ path, cache.contains path = true ↔ path ∈ cache.paths
  signatureOf_eq : ∀ path earlier later, LastCheck path uses earlier later →
    ((Watch.begin algorithm machine).after earlier).machine.signature algorithm path =
      .ok (cache.signatureOf path)
  signatureOf_eq_none : ∀ path, (∀ earlier later, ¬LastCheck path uses earlier later) →
    cache.signatureOf path = none
  canonical : ∀ key ∈ cache.keys, Path.Canonical key

theorem reports_after {algorithm : Digest.Algorithm} {machine : Machine} {uses : List Use} :
    Reports algorithm machine uses ((Watch.begin algorithm machine).after uses).cache := by
  have ordered : ((Watch.begin algorithm machine).after uses).cache.keys.Pairwise fun a b =>
      a ≠ b ∧ Watch.Before uses a b := Watch.ordered_after
  have nodup := ordered.imp And.left
  have sublist := ((Watch.begin algorithm machine).after uses).cache.paths_sublist_keys
  have standing {key : String}
      (hkey : key ∈ ((Watch.begin algorithm machine).after uses).cache.keys) :
      ∃ earlier later, CheckAt key uses earlier later :=
    Watch.isSome_lookup_after.mp (isSome_lookup_iff.mpr hkey)
  exact {
    nodup := nodup.sublist sublist
    mem_paths := by
      intro path
      rw [mem_paths_iff nodup]
      constructor
      · intro hsome
        obtain ⟨earlier, later, hcheck⟩ :=
          standing (sublist.subset ((mem_paths_iff nodup).mpr hsome))
        obtain ⟨before, between, hlast⟩ := hcheck.exists_last
        obtain ⟨signature, hsignature⟩ := Option.isSome_iff_exists.mp hsome
        have hfound := Watch.signatureOf_after algorithm machine hlast
        rw [hsignature] at hfound
        obtain ⟨bytes, hbytes⟩ := Machine.exists_signature_iff.mp ⟨signature, hfound⟩
        exact ⟨before, between, bytes, hlast, hbytes⟩
      · rintro ⟨earlier, later, bytes, hlast, hbytes⟩
        have hfound := Watch.signatureOf_after algorithm machine hlast
        obtain ⟨signature, hsignature⟩ := Machine.exists_signature_iff.mpr ⟨bytes, hbytes⟩
        rw [Except.ok.inj (hfound.symm.trans hsignature)]
        rfl
    exists_first := by
      intro path hmem
      obtain ⟨earlier, later, hcheck⟩ := standing (sublist.subset hmem)
      exact hcheck.exists_first
    ordered := (ordered.imp And.right).sublist sublist
    size_eq := rfl
    contains_iff := fun path => (mem_paths_iff nodup).symm
    signatureOf_eq := fun _ _ _ => Watch.signatureOf_after algorithm machine
    signatureOf_eq_none := fun _ => Watch.signatureOf_after_of_none
    canonical := by
      intro key hkey
      obtain ⟨earlier, later, hcheck⟩ := standing hkey
      exact hcheck.checkable.1 }

/-- The cache reports exactly the latest checks, after any history of checks, drops and changes of
the files. A check fails if the path is not canonical or has a NUL character in it, and then leaves
the cache as it was. -/
theorem reports_last_checks (algorithm : Digest.Algorithm) (machine : Machine) (uses : List Use) :
    Reports algorithm machine uses ((Watch.begin algorithm machine).after uses).cache ∧
      ∀ (watch : Watch) (path : String),
        ((∃ fault, watch.cache.check watch.machine path = .error fault) ↔
          ¬Path.Canonical path ∨ '\x00' ∈ path.toList) ∧
        ((∃ fault, watch.cache.check watch.machine path = .error fault) →
          watch.use (.check path) = watch) := by
  refine ⟨reports_after, fun watch path => ⟨?_, fun h => ?_⟩⟩
  · rw [exists_check_error_iff, Checkable, not_and_or, not_not]
  · exact watch.use_check_of_not_checkable (exists_check_error_iff.mp h)

end Cache

end ScriptLoader
