import ScriptLoader.Proofs.Records
import ScriptLoader.Proofs.Termination

/-!
What a loader says about a module without running it, and what it takes to drop one.

A name is asked about, loaded and forgotten by what it means now. Whether its module is loaded is
found out twice, by the query and by a load, and with different checks. They agree on files, as
every path in the cache once was the canonical path of one. A load refuses what reads like a file
and is no regular one, and the query does not. Forgetting drops a record, and the next load runs the
module. But a module is forgotten by its name, and a name means nothing any more once there is
nothing at its path.
-/

namespace ScriptLoader

namespace Files

variable {files : Files} {place : Place} {names : List String}

/-- A walk fails where a directory is missing, not because of how a path is written. -/
theorem walk_ne_nulCharacter : files.walk place names ≠ .error .nulCharacter := by
  induction names generalizing place with
  | nil => simp [walk]
  | cons part rest ih =>
      rw [walk]
      split
      · exact ih
      · simp
      · simp

end Files

namespace Machine

variable {machine : Machine} {path : String} {algorithm : Digest.Algorithm}

theorem nul_mem_of_locate (h : machine.locate path = .error .nulCharacter) :
    '\x00' ∈ path.toList := by
  unfold locate at h
  split at h
  · cases h
  · split at h
    · assumption
    · split at h
      · rename_i error hwalk
        cases h
        exact (Files.walk_ne_nulCharacter hwalk).elim
      · split at h <;> cases h

theorem nul_mem_of_read (h : machine.read path = .error .nulCharacter) :
    '\x00' ∈ path.toList := by
  unfold read node at h
  rcases hlocate : machine.locate path with error | place
  · rw [hlocate] at h
    cases h
    exact nul_mem_of_locate hlocate
  · rcases hnode : machine.files.node? place with _ | node
    · simp [hlocate, hnode] at h
    · rcases hcontent : node.content? with _ | content
      · simp [hlocate, hnode, hcontent] at h
      · simp only [hlocate, hnode, hcontent] at h
        split at h <;> cases h

/-- The signature of a path that can be written can be asked for, whatever is there. -/
theorem exists_signature_of_writable (writable : '\x00' ∉ path.toList) :
    ∃ signature, machine.signature algorithm path = .ok signature := by
  unfold signature
  split
  · exact ⟨_, rfl⟩
  · rename_i hread
    exact (writable (nul_mem_of_read hread)).elim
  · exact ⟨_, rfl⟩

theorem isFile_eq_false_of_isDevice (h : machine.isDevice path = true) :
    machine.isFile path = false := by
  unfold isDevice at h
  unfold Machine.isFile
  split at h
  · rename_i hnode
    rw [hnode]
  · cases h

/-- Only files and devices have a signature. -/
theorem isFile_or_isDevice_of_signature {signature : Signature}
    (h : machine.signature algorithm path = .ok (some signature)) :
    machine.isFile path = true ∨ machine.isDevice path = true := by
  unfold Machine.signature read at h
  unfold Machine.isFile isDevice
  rcases hnode : machine.node path with error | content | content | _
  · rw [hnode] at h
    cases error <;> cases h
  · exact .inl rfl
  · exact .inr rfl
  · simp [hnode] at h

end Machine

/-- Canonical paths are not searched for. -/
theorem Path.Canonical.isAnchored {path : String} (h : Path.Canonical path) :
    Path.isAnchored path = true := by
  rw [Path.isAnchored, h.1, Bool.true_or]

namespace Cache

variable {cache : Cache} {path : String}

def Addressed (cache : Cache) : Prop :=
  ∀ path, (cache.records.lookup path).isSome = true →
    Path.Canonical path ∧ '\x00' ∉ path.toList

theorem Addressed.of_signatureOf (h : cache.Addressed) {signature : Signature}
    (recorded : cache.signatureOf path = some signature) :
    Path.Canonical path ∧ '\x00' ∉ path.toList := by
  refine h path ?_
  rcases hlookup : cache.records.lookup path with _ | found
  · rw [signatureOf, hlookup] at recorded
    cases recorded
  · rfl

theorem Addressed.record (h : cache.Addressed) (canonical : Path.Canonical path)
    (writable : '\x00' ∉ path.toList) (signature : Option Signature) :
    (cache.record path signature).Addressed := by
  intro other hother
  by_cases hsame : other = path
  · rw [hsame]
    exact ⟨canonical, writable⟩
  · rw [lookup_record_of_ne hsame] at hother
    exact h other hother

theorem Addressed.forget (h : cache.Addressed) (path : String) :
    (cache.forget path).2.Addressed := by
  intro other hother
  by_cases hsame : other = path
  · rw [hsame, lookup_forget_self] at hother
    cases hother
  · rw [lookup_forget_of_ne hsame] at hother
    exact h other hother

@[simp] theorem signatureOf_forget_of_ne {other : String} (h : other ≠ path) :
    (cache.forget path).2.signatureOf other = cache.signatureOf other := by
  simp only [signatureOf, lookup_forget_of_ne h]

/-- The other paths stay as they are, in their order. -/
@[simp] theorem paths_forget : (cache.forget path).2.paths = cache.paths.filter (· ≠ path) := by
  simp only [paths, forget, List.filter_map, List.filter_filter, Function.comp_def]
  congr 1
  exact List.filter_congr fun record _ => Bool.and_comm _ _

theorem lookup_of_mem_paths (h : path ∈ cache.paths) :
    (cache.records.lookup path).isSome = true := by
  obtain ⟨⟨key, signature⟩, hmem, rfl⟩ := List.mem_map.mp h
  rcases hlookup : cache.records.lookup key with _ | found
  · have hnone := List.lookup_eq_none_iff.mp hlookup (key, signature) (List.mem_of_mem_filter hmem)
    simp at hnone
  · rfl

end Cache

namespace Event

variable {path : String}

/-- A module of which no check is in force gets one only by a check. -/
theorem standing?_of_unchecked {events earlier : List Event}
    (unchecked : ∀ content signature, checked path content signature ∉ events)
    (h : standing? path earlier = none) : standing? path (events ++ earlier) = none := by
  induction events with
  | nil => exact h
  | cons event rest ih =>
      replace ih := ih fun content signature hmem =>
        unchecked content signature (List.mem_cons_of_mem _ hmem)
      cases event with
      | checked other content signature =>
          have hother : other ≠ path := by
            rintro rfl
            exact unchecked content signature List.mem_cons_self
          rwa [List.cons_append, standing?, if_neg hother]
      | forgotten other =>
          rw [List.cons_append, standing?, ih, ite_self]
      | reset => rfl
      | _ => exact ih

end Event

namespace Loader

variable {σ α β : Type} {executor : Executor σ} {loader : Loader σ} {requested path : String}

/-! ### What is recorded -/

/-- What is checked is a file, at a canonical path. -/
theorem Checks.addressed {signature : Option Signature}
    (checks : Checks loader requested path signature) (h : loader.cache.Addressed) :
    (loader.cache.record path signature).Addressed :=
  h.record checks.canonical (Machine.nul_not_mem_of_isFile checks.isFile) signature

theorem addressed_answer (request : Request σ) (h : loader.cache.Addressed) :
    (loader.answer request).2.cache.Addressed := by
  cases request with
  | resolve requested =>
      obtain ⟨remarks, -, heq⟩ := exists_resolve loader requested
      rwa [answer, heq]
  | isLoaded requested =>
      obtain ⟨remarks, -, heq⟩ := exists_isLoaded loader requested
      rwa [answer, heq]
  | forget requested =>
      obtain ⟨remarks, -, heq | ⟨path, -, heq⟩⟩ := forget_cases loader requested
      · rwa [answer, heq]
      · rw [answer, heq]
        exact h.forget path
  | reset => exact fun path hlookup => by cases hlookup
  | _ => exact h

theorem addressed_judge {after : Loader σ} {verdict : Verdict}
    (h : loader.judge requested = (verdict, after)) (addressed : loader.cache.Addressed) :
    after.cache.Addressed := by
  cases judged h with
  | unresolved _ _ => exact addressed
  | notAFile _ _ _ => exact addressed
  | notCanonical _ _ _ _ => exact addressed
  | upToDate checks _ _ => exact checks.addressed addressed
  | due checks _ _ => exact checks.addressed addressed

theorem addressed_enter {entered : Loader σ} (h : loader.judge requested = (.due path, entered))
    (addressed : loader.cache.Addressed) : (entered.enter path).cache.Addressed := by
  show entered.cache.Addressed
  exact addressed_judge h addressed

theorem kept_addressed : Kept (σ := σ) (fun _ => True) fun before after =>
    before.cache.Addressed → after.cache.Addressed where
  refl _ := id
  trans h₁ h₂ h := h₂ (h₁ h)
  answer _ request _ := addressed_answer request
  settled := addressed_judge
  module verdict body h := body (addressed_enter verdict h)

/-- At every moment of every run, only canonical paths of files have been recorded. -/
theorem Reaches.addressed {machine : Machine} {algorithm : Digest.Algorithm}
    {baseline : List String} {host : σ} {program : Program σ α} {active : List String}
    {left : Program σ β} {now : Loader σ}
    (reached : Reaches executor program (start machine algorithm baseline host) active left now) :
    now.cache.Addressed :=
  reached.kept kept_addressed addressed_enter (fun _ => Program.asks_true _) (Program.asks_true _)
    fun path hlookup => by cases hlookup

/-! ### The query -/

/-- A canonical path means itself if there is anything at it, and else nothing. -/
theorem target_of_canonical (canonical : Path.Canonical path) :
    loader.target path =
      if loader.machine.isPresent path then .ok path
      else .error (.notFound path (some loader.caller)) := by
  have anchored := canonical.isAnchored
  have hcanonical : Resolve.canonical loader.machine path = .ok path := by
    rw [Resolve.canonical, Path.canonicalize?_of_isAbsolute canonical.1, canonical.2]
  have hfault (fault : Fault) : loader.searchFault path fault = fault := by
    simp [searchFault, anchored]
  simp only [target, Resolve.resolve, anchored, if_true, hcanonical]
  split
  · rfl
  · simp only [Except.mapError, hfault]

theorem eq_of_target_canonical {other : String} (canonical : Path.Canonical path)
    (target : loader.target path = .ok other) : other = path := by
  rw [target_of_canonical canonical] at target
  split at target <;> cases target
  rfl

theorem isLoaded_eq_true_iff :
    (loader.isLoaded requested).1 = .ok true ↔
      ∃ path, loader.target requested = .ok path ∧ loader.Current path := by
  obtain ⟨found, -, hresolve⟩ := exists_resolve loader requested
  simp only [isLoaded, hresolve]
  rcases target : loader.target requested with fault | path
  · refine iff_of_false (fun h => ?_) (by simp)
    simp only at h
    split at h <;> cases h
  · simp only [noting, Except.ok.injEq, exists_eq_left', Current]
    rcases recorded : loader.cache.signatureOf path with _ | stored
    · simp
    · rcases now : loader.machine.signature loader.cache.algorithm path with fault | signature
      · simp
      · simp only [Except.ok.injEq, beq_iff_eq]
        constructor
        · rintro rfl
          exact ⟨stored, rfl, rfl⟩
        · rintro ⟨_, rfl, same⟩
          exact same

/-- The query fails exactly if the name cannot be looked for. That it means nothing is a no. -/
theorem isLoaded_eq_error_iff (addressed : loader.cache.Addressed) {fault : Fault} :
    (loader.isLoaded requested).1 = .error fault ↔
      loader.target requested = .error fault ∧ fault.isLoaderFault = false := by
  obtain ⟨found, -, hresolve⟩ := exists_resolve loader requested
  simp only [isLoaded, hresolve]
  rcases target : loader.target requested with fault' | path
  · by_cases hfault : fault'.isLoaderFault = true
    · simp only [if_pos hfault, reduceCtorEq, false_iff]
      rintro ⟨⟨⟩, hother⟩
      cases hfault.symm.trans hother
    · simp only [if_neg hfault, Except.error.injEq]
      refine ⟨fun h => ⟨h, ?_⟩, fun h => h.1⟩
      rw [← h]
      exact Bool.eq_false_iff.mpr hfault
  · refine iff_of_false (fun h => ?_) (by simp)
    simp only [noting] at h
    rcases recorded : loader.cache.signatureOf path with _ | stored
    · simp [recorded] at h
    · obtain ⟨signature, hsignature⟩ := @Machine.exists_signature_of_writable loader.machine path
        loader.cache.algorithm (addressed.of_signatureOf recorded).2
      simp [recorded, hsignature] at h

/-- A load is over at once, with nothing to run, for the files that the query calls loaded. -/
theorem judge_skipped_iff (addressed : loader.cache.Addressed) :
    (∃ after, loader.judge requested = (.settled (.ok .skipped), after)) ↔
      ∃ path, loader.target requested = .ok path ∧ loader.machine.isFile path = true ∧
        loader.Current path := by
  constructor
  · rintro ⟨after, verdict⟩
    cases judged verdict with
    | upToDate checks same _ =>
        exact ⟨_, checks.target, checks.isFile, _, checks.signature, same⟩
  · rintro ⟨path, target, isFile, current⟩
    obtain ⟨signature, hsignature, recorded⟩ := current
    obtain settled | ⟨entered, verdict⟩ := judge_of_file target
      (addressed.of_signatureOf recorded).1 isFile
    · exact settled
    · exact (not_current_of_due verdict ⟨signature, hsignature, recorded⟩).elim

/-- A call that ends with skipped and starts nothing was over at once. -/
theorem Runs.skipped_iff_judge {safe : Bool} :
    (∃ after events, Runs executor (.call safe requested) loader (.ok .skipped) after ∧
      after.journal = events ++ loader.journal ∧ startedPaths events = []) ↔
    ∃ after, loader.judge requested = (.settled (.ok .skipped), after) := by
  constructor
  · rintro ⟨after, events, runs, journal, quiet⟩
    obtain verdict | ⟨path, entered, inner, verdict, body, rfl⟩ := runs.of_call_ok
    · exact ⟨after, verdict⟩
    · have hstarted : path ∈ startedPaths events :=
        List.mem_filterMap.mpr ⟨_, started_mem_of_body verdict body journal, rfl⟩
      rw [quiet] at hstarted
      cases hstarted
  · rintro ⟨after, verdict⟩
    obtain ⟨events, journal, quiet⟩ := startedPaths_judge verdict
    refine ⟨after, events, .settled verdict ?_, journal, quiet⟩
    rw [report_ok]
    exact .done _ _

/-- Take a cache as it is at any moment of any run that begins with a new loader, whatever the
modules of the run do and whatever was done to the files, and put it into a loader with any files,
any stack and any search path. Asking whether a module is loaded only adds remarks to the journal.
The answer is yes if and only if a load or a safe load, whatever modules would do, ends with skipped
and starts no module, or the name means a device that reads as it is recorded. No device is loaded:
a load fails at once. And the query fails exactly if the name means nothing for another reason than
that no file is found, with the fault with which a load would fail at once. -/
theorem isLoaded_iff_skipped_or_device {machine : Machine} {algorithm : Digest.Algorithm}
    {baseline : List String} {host : σ} {program : Program σ α} {active : List String}
    {left : Program σ β} {now : Loader σ}
    (reached : Reaches executor program (start machine algorithm baseline host) active left now)
    (loader : Loader σ) (same : loader.cache = now.cache) (requested : String) :
    ∃ remarks, Remarks remarks ∧ (loader.isLoaded requested).2 = loader.noting remarks ∧
      (∀ (executor : Executor σ) (safe : Bool), (loader.isLoaded requested).1 = .ok true ↔
        (∃ after events,
          Runs executor (.call safe requested) (loader.noting remarks) (.ok .skipped) after ∧
          after.journal = events ++ (loader.noting remarks).journal ∧ startedPaths events = []) ∨
        ∃ path, loader.target requested = .ok path ∧ loader.machine.isDevice path = true ∧
          loader.Current path) ∧
      (∀ path, loader.target requested = .ok path → loader.machine.isDevice path = true →
        ∃ after, (loader.noting remarks).judge requested =
          (.settled (.error (.notAFile path)), after)) ∧
      (∀ fault, (loader.isLoaded requested).1 = .error fault ↔
        loader.target requested = .error fault ∧ fault.isLoaderFault = false) ∧
      ∀ fault, loader.target requested = .error fault →
        ∃ after, (loader.noting remarks).judge requested = (.settled (.error fault), after) := by
  obtain ⟨remarks, hr, hasked⟩ := exists_isLoaded loader requested
  have addressed : (loader.noting remarks).cache.Addressed := by
    show loader.cache.Addressed
    rw [same]
    exact reached.addressed
  refine ⟨remarks, hr, hasked, fun executor safe => ?_, fun path target device => ?_,
    fun fault => @isLoaded_eq_error_iff σ loader _ addressed fault, fun fault target => ?_⟩
  · rw [Runs.skipped_iff_judge, judge_skipped_iff addressed, isLoaded_eq_true_iff]
    constructor
    · rintro ⟨path, target, current⟩
      have ⟨signature, hsignature, _⟩ := current
      exact (Machine.isFile_or_isDevice_of_signature hsignature).imp
        (fun isFile => ⟨path, target, isFile, current⟩)
        fun isDevice => ⟨path, target, isDevice, current⟩
    · rintro (⟨path, target, -, current⟩ | ⟨path, target, -, current⟩)
      · exact ⟨path, target, current⟩
      · exact ⟨path, target, current⟩
  · exact @judge_of_not_isFile σ (loader.noting remarks) _ _ target
      (Machine.isFile_eq_false_of_isDevice device)
  · exact @judge_of_error σ (loader.noting remarks) _ _ target

/-- Loads `/a`, and puts a directory in the place of its file. -/
def supplanting : Program Unit Unit :=
  .load false "/a" fun _ => .ask (.edit (.remove "/a")) fun _ =>
    .ask (.edit (.makeDirectory "/a")) fun _ => .done (.ok ())

/-- The record of `/a` outlives its file: it is there, but the query says no, and no load is over at
once. As soon as the file is back as it was, the query says yes, and a load skips the module. -/
theorem isLoaded_iff_skipped_or_device_supplanting :
    ∃ now asked asked' after : Loader Unit,
      Reaches silentModules supplanting rewritten [] (.done (.ok ())) now ∧
      now.loadedModules = ["/a"] ∧
      now.isLoaded "/a" = (.ok false, asked) ∧
      (¬∃ after events, Runs silentModules (.call false "/a") asked (.ok .skipped) after ∧
        after.journal = events ++ asked.journal ∧ startedPaths events = []) ∧
      ({ now with machine := rewritten.machine }.isLoaded "/a") = (.ok true, asked') ∧
      Runs silentModules (.call true "/a") asked' (.ok .skipped) after := by
  have hrun : ((run silentModules 1 supplanting rewritten).map fun r =>
      (r.1, r.2.loadedModules, (r.2.isLoaded "/a").1,
        ({ r.2 with machine := rewritten.machine }.isLoaded "/a").1)) =
      some (.ok (), ["/a"], .ok false, .ok true) := by
    decide +kernel
  obtain ⟨⟨outcome, now⟩, hrun, hnow⟩ := Option.map_eq_some_iff.mp hrun
  simp only [Prod.mk.injEq] at hnow
  obtain ⟨rfl, hloaded, hno, hyes⟩ := hnow
  have reached := (runs_of_run hrun).reaches
  obtain ⟨remarks, -, hasked, predicts, -⟩ :=
    isLoaded_iff_skipped_or_device reached now rfl "/a"
  obtain ⟨remarks', -, hasked', predicts', -⟩ := isLoaded_iff_skipped_or_device reached
    { now with machine := rewritten.machine } rfl "/a"
  obtain ⟨after, events, runs, -, -⟩ | ⟨path, target, device, -⟩ :=
    (predicts' silentModules true).mp hyes
  · refine ⟨now, _, _, after, reached, hloaded, Prod.ext hno hasked, fun hskipped => ?_,
      Prod.ext hyes hasked', runs⟩
    cases hno.symm.trans ((predicts silentModules false).mpr (.inl hskipped))
  · obtain rfl := eq_of_target_canonical (by decide) target
    have isFile : rewritten.machine.isDevice "/a" = false := by decide +kernel
    cases isFile.symm.trans device

/-- Loads `/a` when it is empty, and puts a device in the place of its file that reads like it. -/
def masking : Program Unit Unit :=
  .ask (.edit (.write "/a" ⟨.empty, true⟩)) fun _ => .load false "/a" fun _ =>
    .ask (.edit (.makeDevice "/a" ⟨.empty, true⟩)) fun _ => .done (.ok ())

/-- So the query does not always predict a load: it calls a device loaded, and the load fails. And
a name that asks for the home of an impossible user is an error instead of a no. -/
theorem device_called_loaded :
    (¬∀ (program : Program Unit Unit) (now : Loader Unit) (requested : String),
      Reaches silentModules program rewritten [] (.done (.ok ())) now →
      ((now.isLoaded requested).1 = .ok true ↔
        ∃ after, now.judge requested = (.settled (.ok .skipped), after))) ∧
    (run silentModules 1 (masking.bind fun _ => .load false "/a" fun given =>
      .done (given.map Script.Value.isSkipped)) rewritten).map Prod.fst =
      some (.error (.notAFile "/a")) ∧
    (rewritten.isLoaded "~z\x00").1 = .error (.unreadable "~z\x00" .nulCharacter) := by
  refine ⟨fun h => ?_, by decide +kernel, by decide +kernel⟩
  have hrun : ((run silentModules 1 masking rewritten).map fun r =>
        (r.1, (r.2.isLoaded "/a").1, r.2.machine.isPresent "/a", r.2.machine.isFile "/a")) =
      some (.ok (), .ok true, true, false) := by
    decide +kernel
  obtain ⟨⟨outcome, now⟩, hrun, hnow⟩ := Option.map_eq_some_iff.mp hrun
  simp only [Prod.mk.injEq] at hnow
  obtain ⟨rfl, hyes, hpresent, hfile⟩ := hnow
  obtain ⟨after, skipped⟩ := (h masking now "/a" (runs_of_run hrun).reaches).mp hyes
  have target : now.target "/a" = .ok "/a" := by
    rw [target_of_canonical (by decide), if_pos hpresent]
  obtain ⟨after', fails⟩ := judge_of_not_isFile target hfile
  cases skipped.symm.trans fails

/-! ### Forgetting -/

theorem resolve_of_canonical (canonical : Path.Canonical path) :
    loader.resolve path = (loader.target path, loader) := by
  rw [resolve, noteResolved, if_pos canonical.isAnchored]

/-- A file that is not recorded with a signature has to be run. -/
theorem exists_due_of_unrecorded (target : loader.target requested = .ok path)
    (canonical : Path.Canonical path) (isFile : loader.machine.isFile path = true)
    (unrecorded : loader.cache.signatureOf path = none) :
    ∃ entered, loader.judge requested = (.due path, entered) := by
  obtain ⟨after, verdict⟩ | due := judge_of_file target canonical isFile
  · cases judged verdict with
    | upToDate checks same _ =>
        cases target.symm.trans checks.target
        cases unrecorded.symm.trans same
  · exact due

def Invokes (executor : Executor σ) (loader : Loader σ) (requested path : String) : Prop :=
  ∀ safe, ∃ entry, entry.stack.top = path ∧
    Reaches executor (.call safe requested) loader [path] (executor path) entry

theorem invokes_of_due {entered : Loader σ}
    (verdict : loader.judge requested = (.due path, entered)) :
    Invokes executor loader requested path := by
  intro safe
  refine ⟨entered.enter path, rfl, ?_⟩
  have inside : Reaches executor (.call safe requested) loader ([] ++ [path]) (executor path)
      (entered.enter path) := .inside verdict (.here _ _)
  exact inside

/-- A module of which no check was in force is not recorded as long as it is not checked. -/
theorem Faithful.unrecorded_later {before later : Loader σ} (faithful : Faithful before)
    (none_standing : Event.standing? path before.journal = none) {program : Program σ α}
    {active : List String} {left : Program σ β}
    (reached : Reaches executor program before active left later) {events : List Event}
    (journal : later.journal = events ++ before.journal)
    (unchecked : ∀ content signature, .checked path content signature ∉ events) :
    later.cache.signatureOf path = none := by
  have hstanding : Event.standing? path later.journal = none := by
    rw [journal]
    exact Event.standing?_of_unchecked unchecked none_standing
  rw [(faithful.reaches reached).signatureOf, Event.signature?, hstanding]
  rfl

/-- Take any moment of any run that begins with a new loader, whatever its modules do and whatever
was done to the files, and any module that is listed as loaded then.

* If there is something at its path, then forgetting the path says yes. The module is no longer
  listed, the others are listed as before, with the signatures that they had, and nothing else but
  the journal changes. As long as the module is not checked again, whatever happens, the next call
  of any name that means it, as its path does, invokes the executor if it is a regular file then.
* If there is nothing at its path, then forgetting fails as it does for any name that means nothing,
  and changes nothing: the module stays listed. -/
theorem forget_drops_present {machine : Machine} {algorithm : Digest.Algorithm}
    {baseline : List String} {host : σ} {program : Program σ α} {active : List String}
    {left : Program σ β} {now : Loader σ}
    (reached : Reaches executor program (start machine algorithm baseline host) active left now)
    (path : String) (loaded : path ∈ now.loadedModules) :
    (now.machine.isPresent path = true →
      ∃ after, now.forget path = (.ok true, after) ∧
        after.loadedModules = now.loadedModules.filter (· ≠ path) ∧
        (∀ other, other ≠ path → after.cache.signatureOf other = now.cache.signatureOf other) ∧
        after = { now with cache := after.cache, journal := after.journal } ∧
        ∀ (γ δ : Type) (executor : Executor σ) (program : Program σ γ) (active : List String)
          (left : Program σ δ) (later : Loader σ) (events : List Event),
          Reaches executor program after active left later →
          later.journal = events ++ after.journal →
          (∀ content signature, .checked path content signature ∉ events) →
          later.machine.isFile path = true →
          later.target path = .ok path ∧
          ∀ requested, later.target requested = .ok path →
            Invokes executor later requested path) ∧
    (now.machine.isPresent path = false →
      now.forget path = (.error (.notFound path (some now.caller)), now)) := by
  have faithful := (faithful_start machine algorithm baseline host).reaches reached
  have recorded := Cache.lookup_of_mem_paths loaded
  obtain ⟨canonical, -⟩ := reached.addressed path recorded
  constructor
  · intro present
    have target : now.target path = .ok path := by
      rw [target_of_canonical canonical, if_pos present]
    have forgets : now.forget path =
        (.ok true, { now with cache := (now.cache.forget path).2 }.note (.forgotten path)) := by
      rw [forget, resolve_of_canonical canonical, target]
      simp only [Cache.forget, recorded]
    have hafter : Faithful
        ({ now with cache := (now.cache.forget path).2 }.note (.forgotten path)) :=
      faithful.forgotten .nil path
    refine ⟨_, forgets, Cache.paths_forget, fun other => Cache.signatureOf_forget_of_ne, rfl, ?_⟩
    intro γ δ executor program active left later events reached' journal unchecked isFile
    have none_standing : Event.standing? path (.forgotten path :: now.journal) = none := if_pos rfl
    have unrecorded := hafter.unrecorded_later none_standing reached' journal unchecked
    have target' : later.target path = .ok path := by
      rw [target_of_canonical canonical, if_pos (Machine.isPresent_of_isFile isFile)]
    -- so a call of it, by any name, finds it due
    refine ⟨target', fun requested htarget => ?_⟩
    obtain ⟨entered, verdict⟩ := exists_due_of_unrecorded htarget canonical isFile unrecorded
    exact invokes_of_due verdict
  · intro absent
    rw [forget, resolve_of_canonical canonical, target_of_canonical canonical, absent]
    rfl

/-- Loads `/a` and `/b`, puts a directory in the place of the one and nothing in that of the
other. -/
def clearing : Program Unit Unit :=
  .load false "/b" fun _ => .ask (.edit (.remove "/b")) fun _ => supplanting

def clearedLoader : Loader Unit :=
  start ⟨⟨"/", "", []⟩, .build [] [(["a"], .ofText "1"), (["b"], .ofText "2")]⟩ .md5 [] ()

/-- Then `/a` can be forgotten, and runs as soon as it is a file again. And `/b` cannot be. -/
theorem forget_drops_present_clearing :
    ∃ now after : Loader Unit,
      Reaches silentModules clearing clearedLoader [] (.done (.ok ())) now ∧
      now.loadedModules = ["/b", "/a"] ∧
      now.forget "/a" = (.ok true, after) ∧ after.loadedModules = ["/b"] ∧
      Invokes silentModules (after.answer (.edit (.write "/a" (.ofText "1")))).2 "/a" "/a" ∧
      now.forget "/b" = (.error (.notFound "/b" (some "")), now) := by
  have hrun : ((run silentModules 1 clearing clearedLoader).map fun r =>
      (r.1, r.2.loadedModules, r.2.caller, r.2.machine.isPresent "/a", r.2.machine.isPresent "/b",
        (r.2.machine.edit (.write "/a" (.ofText "1"))).isFile "/a")) =
      some (.ok (), ["/b", "/a"], "", true, false, true) := by
    decide +kernel
  obtain ⟨⟨outcome, now⟩, hrun, hnow⟩ := Option.map_eq_some_iff.mp hrun
  simp only [Prod.mk.injEq] at hnow
  obtain ⟨rfl, hloaded, hcaller, hpresent, habsent, hfile⟩ := hnow
  have reached := (runs_of_run hrun).reaches
  obtain ⟨after, forgets, hafter, -, hsame, next⟩ :=
    (forget_drops_present reached "/a" (by simp [hloaded])).1 hpresent
  have hfails := (forget_drops_present reached "/b" (by simp [hloaded])).2 habsent
  have hmachine : after.machine = now.machine := by rw [hsame]
  obtain ⟨target, invokes⟩ := next Unit Unit silentModules
    (.query (.edit (.write "/a" (.ofText "1")))) [] _ _ [] (.asked (.here _ _)) rfl (by simp)
    (by
      show (after.machine.edit _).isFile "/a" = true
      rw [hmachine]
      exact hfile)
  refine ⟨now, after, reached, hloaded, forgets, ?_, invokes "/a" target, ?_⟩
  · rw [hafter, hloaded]
    decide
  · rw [hfails, hcaller]

/-- Removes the file of `/a` after a load, forgets `/a`, and loads it again after writing to the
file what it held. What comes of forgetting it, and whether it was skipped. -/
def recreating : Program Unit (Except Fault Bool × Bool) :=
  .load false "/a" fun _ => .ask (.edit (.remove "/a")) fun _ =>
    .ask (.forget "/a") fun forgotten => .ask (.edit (.write "/a" ⟨⟨#[120]⟩, true⟩)) fun _ =>
      .load false "/a" fun given => .done (given.map fun value => (forgotten, value.isSkipped))

/-- So not every module that is listed can be forgotten. One whose file was removed stays listed,
and is skipped if it comes back as it was, in spite of being forgotten in between. -/
theorem removed_module_not_forgotten :
    (¬∀ (program : Program Unit Unit) (now : Loader Unit) (path : String),
      Reaches silentModules program rewritten [] (.done (.ok ())) now →
      path ∈ now.loadedModules → (now.forget path).1 = .ok true) ∧
    (run silentModules 1 recreating rewritten).map
      (fun result => (result.1, startedPaths result.2.journal, result.2.loadedModules)) =
        some (.ok (.error (.notFound "/a" (some "")), true), ["/a"], ["/a"]) := by
  refine ⟨fun h => ?_, by decide +kernel⟩
  have hrun : ((run silentModules 1
      (.load false "/a" fun _ => .query (.edit (.remove "/a"))) rewritten).map fun r =>
        (r.1, r.2.loadedModules, (r.2.forget "/a").1)) =
      some (.ok (), ["/a"], .error (.notFound "/a" (some ""))) := by
    decide +kernel
  obtain ⟨⟨outcome, now⟩, hrun, hnow⟩ := Option.map_eq_some_iff.mp hrun
  simp only [Prod.mk.injEq] at hnow
  obtain ⟨rfl, hloaded, hfails⟩ := hnow
  have hforgets := h _ now "/a" (runs_of_run hrun).reaches (by simp [hloaded])
  cases hfails.symm.trans hforgets

end Loader

end ScriptLoader
