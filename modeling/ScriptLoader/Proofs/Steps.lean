import ScriptLoader.Loader.Load
import ScriptLoader.Proofs.Spelling

/-!
What the single steps of loading change. `Judged` lists everything that can become of a request
for a module, and the lemmas on `answer` do the same for the other requests; proofs about whole
runs use these lists and do not open the steps again.
-/

namespace ScriptLoader

namespace Event

/-- Events that tell of no change: how a name was found, and why a file could not be read. -/
def isRemark : Event → Bool
  | resolved .. | unreadable .. => true
  | _ => false

end Event

def Remarks (events : List Event) : Prop :=
  ∀ event ∈ events, event.isRemark = true

@[simp] theorem Remarks.nil : Remarks [] := by simp [Remarks]

theorem Remarks.append {first second : List Event} (h₁ : Remarks first) (h₂ : Remarks second) :
    Remarks (first ++ second) := by
  intro event hmem
  rcases List.mem_append.mp hmem with h | h
  · exact h₁ event h
  · exact h₂ event h

theorem Remarks.singleton {event : Event} (h : event.isRemark = true) : Remarks [event] := by
  intro e he
  rw [List.mem_singleton.mp he]
  exact h

theorem Remarks.not_mem {remarks : List Event} {event : Event} (h : Remarks remarks)
    (hevent : event.isRemark = false) : event ∉ remarks := by
  intro hmem
  rw [h event hmem] at hevent
  cases hevent

theorem Remarks.reset_not_mem {remarks : List Event} (h : Remarks remarks) :
    Event.reset ∉ remarks := h.not_mem rfl

namespace Loader

variable {σ : Type}

def noting (loader : Loader σ) (events : List Event) : Loader σ :=
  { loader with journal := events ++ loader.journal }

@[simp] theorem journal_noting (loader : Loader σ) (events : List Event) :
    (loader.noting events).journal = events ++ loader.journal := rfl

@[simp] theorem noting_noting (loader : Loader σ) (first second : List Event) :
    (loader.noting first).noting second = loader.noting (second ++ first) := by
  simp [noting]

theorem note_eq_noting (loader : Loader σ) (event : Event) :
    loader.note event = loader.noting [event] := rfl

theorem resolve_of_target {loader : Loader σ} {requested path : String}
    (h : loader.target requested = .ok path) :
    Resolve.resolve loader.machine loader.searchPath.directories requested loader.caller =
      .ok path := by
  unfold target at h
  rcases hres : Resolve.resolve loader.machine loader.searchPath.directories requested
    loader.caller with fault | found
  · rw [hres] at h
    cases h
  · rw [hres] at h
    exact h

theorem canonical_of_target {loader : Loader σ} {requested path : String}
    (hmachine : Path.isAbsolute loader.machine.workingDirectory = true)
    (h : loader.target requested = .ok path) : Path.Canonical path :=
  Resolve.canonical_of_resolve hmachine (resolve_of_target h)

theorem exists_noteResolved (loader : Loader σ) (requested : String) :
    ∃ remarks, Remarks remarks ∧ loader.noteResolved requested = loader.noting remarks := by
  unfold noteResolved
  split
  · exact ⟨[], .nil, rfl⟩
  · split
    · exact ⟨[], .nil, rfl⟩
    · split
      · exact ⟨[], .nil, rfl⟩
      · exact ⟨_, .singleton rfl, note_eq_noting _ _⟩

theorem exists_noteUnreadable (loader : Loader σ) (path : String) :
    ∃ remarks, Remarks remarks ∧ loader.noteUnreadable path = loader.noting remarks := by
  unfold noteUnreadable
  split
  · exact ⟨[], .nil, rfl⟩
  · exact ⟨[], .nil, rfl⟩
  · exact ⟨_, .singleton rfl, note_eq_noting _ _⟩

def recorded (loader : Loader σ) (path : String) (signature : Option Signature)
    (remarks : List Event) : Loader σ :=
  { loader with
    cache := loader.cache.record path signature
    journal := .checked path (loader.machine.read path).toOption signature ::
      (remarks ++ loader.journal) }

structure Checks (loader : Loader σ) (requested path : String) (signature : Option Signature) :
    Prop where
  target : loader.target requested = .ok path
  isFile : loader.machine.isFile path = true
  canonical : Path.Canonical path
  signature : loader.machine.signature loader.cache.algorithm path = .ok signature

/-- Everything that can become of a request for a module, with the loader after it. -/
inductive Judged (loader : Loader σ) (requested : String) : Verdict → Loader σ → Prop
  | unresolved {fault : Fault} {remarks : List Event}
      (target : loader.target requested = .error fault) (hr : Remarks remarks) :
      Judged loader requested (.settled (.error fault)) (loader.noting remarks)
  | notAFile {path : String} {remarks : List Event} (target : loader.target requested = .ok path)
      (isFile : loader.machine.isFile path = false) (hr : Remarks remarks) :
      Judged loader requested (.settled (.error (.notAFile path))) (loader.noting remarks)
  | notCanonical {path : String} {remarks : List Event}
      (target : loader.target requested = .ok path) (isFile : loader.machine.isFile path = true)
      (canonical : ¬Path.Canonical path) (hr : Remarks remarks) :
      Judged loader requested (.settled (.error (Cache.notCanonical path)))
        (loader.noting remarks)
  | upToDate {path : String} {signature : Signature} {remarks : List Event}
      (checks : Checks loader requested path (some signature))
      (same : loader.cache.signatureOf path = some signature) (hr : Remarks remarks) :
      Judged loader requested (.settled (.ok .skipped))
        ((loader.recorded path (some signature) remarks).note (.skipped path))
  | due {path : String} {signature : Option Signature} {remarks : List Event}
      (checks : Checks loader requested path signature)
      (new : signature = none ∨ loader.cache.signatureOf path ≠ signature)
      (hr : Remarks remarks) :
      Judged loader requested (.due path) (loader.recorded path signature remarks)

theorem check_of_checks {loader : Loader σ} {path : String} {signature : Option Signature}
    (hpath : Path.Canonical path)
    (hsig : loader.machine.signature loader.cache.algorithm path = .ok signature) :
    ∃ remarks, Remarks remarks ∧
      loader.check path =
        .ok ((loader.cache.signatureOf path).isSome &&
          loader.cache.signatureOf path == signature, loader.recorded path signature remarks) := by
  obtain ⟨remarks, hr, heq⟩ :=
    exists_noteUnreadable { loader with cache := loader.cache.record path signature } path
  refine ⟨remarks, hr, ?_⟩
  simp [check, Cache.check_of_signature hpath hsig, heq]
  rfl

theorem judged {loader after : Loader σ} {requested : String} {verdict : Verdict}
    (h : loader.judge requested = (verdict, after)) : Judged loader requested verdict after := by
  obtain ⟨found, hfound, hnote⟩ := exists_noteResolved loader requested
  simp only [judge, resolve, hnote] at h
  rcases target : loader.target requested with fault | path
  · rw [target] at h
    cases h
    exact .unresolved target hfound
  · simp only [target] at h
    rcases isFile : loader.machine.isFile path with _ | _
    · simp only [noting, isFile, Bool.false_eq_true, if_false] at h
      cases h
      exact .notAFile target isFile hfound
    · simp only [show (loader.noting found).machine.isFile path = true from isFile, if_true] at h
      by_cases canonical : Path.Canonical path
      · obtain ⟨signature, hsig⟩ :=
          Machine.exists_signature_of_isFile isFile loader.cache.algorithm
        obtain ⟨remarks, hr, hcheck⟩ :=
          @check_of_checks σ (loader.noting found) _ _ canonical hsig
        have hrec : (loader.noting found).recorded path signature remarks =
            loader.recorded path signature (remarks ++ found) := by
          simp [recorded, noting]
        have checks : Checks loader requested path signature :=
          ⟨target, isFile, canonical, hsig⟩
        rw [hcheck, hrec] at h
        -- whether the recorded signature is there and equal decides between the last two cases
        rcases hsame : (loader.noting found).cache.signatureOf path with _ | recorded
        · simp only [hsame, Option.isSome_none, Bool.false_and] at h
          cases h
          refine .due checks ?_ (hr.append hfound)
          rcases signature with _ | signature
          · exact .inl rfl
          · exact .inr fun heq => by cases hsame.symm.trans heq
        · by_cases heq : some recorded = signature
          · subst heq
            simp only [hsame, Option.isSome_some, BEq.rfl, Bool.and_self] at h
            cases h
            exact .upToDate checks hsame (hr.append hfound)
          · simp only [hsame, Option.isSome_some, beq_false_of_ne heq, Bool.and_false] at h
            cases h
            exact .due checks (.inr fun h => heq (hsame.symm.trans h)) (hr.append hfound)
      · rw [check, Cache.check_of_not_canonical canonical] at h
        cases h
        exact .notCanonical target isFile canonical hfound

/-- A name that means nothing is settled with the fault that says so. -/
theorem judge_of_error {loader : Loader σ} {requested : String} {fault : Fault}
    (target : loader.target requested = .error fault) :
    ∃ after, loader.judge requested = (.settled (.error fault), after) := by
  rcases verdict : loader.judge requested with ⟨verdict', after⟩
  cases judged verdict with
  | unresolved target' _ =>
      cases target.symm.trans target'
      exact ⟨_, rfl⟩
  | notAFile target' _ _ => cases target.symm.trans target'
  | notCanonical target' _ _ _ => cases target.symm.trans target'
  | upToDate checks _ _ => cases target.symm.trans checks.target
  | due checks _ _ => cases target.symm.trans checks.target

theorem judge_of_not_isFile {loader : Loader σ} {requested path : String}
    (target : loader.target requested = .ok path) (isFile : loader.machine.isFile path = false) :
    ∃ after, loader.judge requested = (.settled (.error (.notAFile path)), after) := by
  rcases verdict : loader.judge requested with ⟨verdict', after⟩
  cases judged verdict with
  | unresolved target' _ => cases target.symm.trans target'
  | notAFile target' _ _ =>
      cases target.symm.trans target'
      exact ⟨_, rfl⟩
  | notCanonical target' isFile' _ _ =>
      cases target.symm.trans target'
      cases isFile.symm.trans isFile'
  | upToDate checks _ _ =>
      cases target.symm.trans checks.target
      cases isFile.symm.trans checks.isFile
  | due checks _ _ =>
      cases target.symm.trans checks.target
      cases isFile.symm.trans checks.isFile

/-- A name that means a file is settled if the file is up to date, and else the file is due. -/
theorem judge_of_file {loader : Loader σ} {requested path : String}
    (target : loader.target requested = .ok path) (canonical : Path.Canonical path)
    (isFile : loader.machine.isFile path = true) :
    (∃ after, loader.judge requested = (.settled (.ok .skipped), after)) ∨
      ∃ entered, loader.judge requested = (.due path, entered) := by
  rcases verdict : loader.judge requested with ⟨verdict', after⟩
  cases judged verdict with
  | unresolved target' _ => cases target.symm.trans target'
  | notAFile target' isFile' _ =>
      cases target.symm.trans target'
      cases isFile.symm.trans isFile'
  | notCanonical target' _ canonical' _ =>
      cases target.symm.trans target'
      exact (canonical' canonical).elim
  | upToDate _ _ _ => exact .inl ⟨_, rfl⟩
  | due checks _ _ =>
      cases target.symm.trans checks.target
      exact .inr ⟨_, rfl⟩

theorem target_of_due {loader entered : Loader σ} {requested path : String}
    (verdict : loader.judge requested = (.due path, entered)) :
    loader.target requested = .ok path := by
  cases judged verdict with
  | due checks _ _ => exact checks.target

theorem canonical_of_due {loader entered : Loader σ} {requested path : String}
    (verdict : loader.judge requested = (.due path, entered)) : Path.Canonical path := by
  cases judged verdict with
  | due checks _ _ => exact checks.canonical

theorem host_judge {loader after : Loader σ} {requested : String} {verdict : Verdict}
    (h : loader.judge requested = (verdict, after)) : after.host = loader.host := by
  cases judged h <;> rfl

theorem machine_judge {loader after : Loader σ} {requested : String} {verdict : Verdict}
    (h : loader.judge requested = (verdict, after)) : after.machine = loader.machine := by
  cases judged h <;> rfl

/-! ### Requests that run no module -/

theorem exists_resolve (loader : Loader σ) (requested : String) :
    ∃ remarks, Remarks remarks ∧
      loader.resolve requested = (loader.target requested, loader.noting remarks) := by
  obtain ⟨remarks, hr, heq⟩ := exists_noteResolved loader requested
  exact ⟨remarks, hr, by simp [resolve, heq]⟩

theorem exists_isLoaded (loader : Loader σ) (requested : String) :
    ∃ remarks, Remarks remarks ∧ (loader.isLoaded requested).2 = loader.noting remarks := by
  obtain ⟨found, hfound, hres⟩ := exists_resolve loader requested
  simp only [isLoaded, hres]
  rcases loader.target requested with fault | path
  · exact ⟨found, hfound, rfl⟩
  · simp only
    split
    · exact ⟨found, hfound, rfl⟩
    · split
      · exact ⟨found, hfound, rfl⟩
      · obtain ⟨remarks, hr, heq⟩ := exists_noteUnreadable (loader.noting found) path
        exact ⟨remarks ++ found, hr.append hfound, by simp [heq]⟩

/-- Forgetting a module drops its record; a name that means no module drops nothing. -/
theorem forget_cases (loader : Loader σ) (requested : String) :
    ∃ remarks, Remarks remarks ∧
      ((loader.forget requested).2 = loader.noting remarks ∨
        ∃ path, loader.target requested = .ok path ∧
          (loader.forget requested).2 =
            { loader with cache := (loader.cache.forget path).2 }.noting
              (.forgotten path :: remarks)) := by
  obtain ⟨remarks, hr, hres⟩ := exists_resolve loader requested
  refine ⟨remarks, hr, ?_⟩
  simp only [forget, hres]
  rcases target : loader.target requested with fault | path
  · exact .inl rfl
  · exact .inr ⟨path, rfl, rfl⟩

theorem journal_suffix_answer (loader : Loader σ) (request : Request σ) :
    loader.journal <:+ (loader.answer request).2.journal := by
  cases request with
  | resolve requested =>
      obtain ⟨remarks, -, heq⟩ := exists_resolve loader requested
      simp only [answer, heq]
      exact List.suffix_append _ _
  | isLoaded requested =>
      obtain ⟨remarks, -, heq⟩ := exists_isLoaded loader requested
      simp only [answer, heq]
      exact List.suffix_append _ _
  | forget requested =>
      obtain ⟨remarks, -, heq | ⟨path, -, heq⟩⟩ := forget_cases loader requested
      · simp only [answer, heq]
        exact List.suffix_append _ _
      · simp only [answer, heq]
        exact List.suffix_append (.forgotten path :: remarks) _
  | reset => exact List.suffix_cons _ _
  | _ => exact List.suffix_rfl

theorem journal_suffix_recorded (loader : Loader σ) (path : String)
    (signature : Option Signature) (remarks : List Event) :
    loader.journal <:+ (loader.recorded path signature remarks).journal :=
  (List.suffix_append remarks loader.journal).trans (List.suffix_cons _ _)

theorem journal_suffix_judge {loader after : Loader σ} {requested : String} {verdict : Verdict}
    (h : loader.judge requested = (verdict, after)) : loader.journal <:+ after.journal := by
  cases judged h with
  | unresolved _ _ => exact List.suffix_append _ _
  | notAFile _ _ _ => exact List.suffix_append _ _
  | notCanonical _ _ _ _ => exact List.suffix_append _ _
  | upToDate _ _ _ => exact (journal_suffix_recorded ..).trans (List.suffix_cons _ _)
  | due _ _ _ => exact journal_suffix_recorded ..

end Loader

end ScriptLoader
