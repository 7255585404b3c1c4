import Mathlib.Data.Set.Function
import ScriptLoader.Proofs.Runs

/-!
Modules are executed when their content is new, and only then. The cache holds, for every path, what
the latest check of it found that is still in force. So the journal alone explains why each
module was started or skipped: an event is justified by the events before it.
-/

namespace ScriptLoader

def Digest.Algorithm.sign (algorithm : Digest.Algorithm) (bytes : ByteArray) : Signature :=
  Digest.hex (algorithm.digest bytes.data.toList)

namespace Event

/-- An event after which an earlier check of a path is no longer in force. -/
def supersedes (path : String) : Event → Bool
  | checked other _ _ => other == path
  | forgotten other => other == path
  | reset => true
  | _ => false

/-- The latest check of a path that is still in force: what the file held, and its signature. -/
def standing? (path : String) : List Event → Option (Option ByteArray × Option Signature)
  | [] => none
  | checked other content signature :: earlier =>
    if other = path then some (content, signature) else standing? path earlier
  | forgotten other :: earlier => if other = path then none else standing? path earlier
  | reset :: _ => none
  | _ :: earlier => standing? path earlier

def signature? (path : String) (journal : List Event) : Option Signature :=
  (standing? path journal).bind (·.2)

/-- The newest event is no check. A check is decided upon before anything else happens. -/
def Decided (journal : List Event) : Prop :=
  ∀ path content signature, journal.head? ≠ some (checked path content signature)

def Justified (algorithm : Digest.Algorithm) : Event → List Event → Prop
  | checked _ content signature, earlier =>
    signature = content.map algorithm.sign ∧ Decided earlier
  | started path _, earlier => ∃ content signature before,
      earlier = checked path content signature :: before ∧
        (signature = none ∨ signature? path before ≠ signature)
  | skipped path, earlier => ∃ content signature before,
      earlier = checked path content (some signature) :: before ∧
        signature? path before = some signature
  | _, earlier => Decided earlier

def AllJustified (algorithm : Digest.Algorithm) : List Event → Prop
  | [] => True
  | event :: earlier => event.Justified algorithm earlier ∧ AllJustified algorithm earlier

variable {algorithm : Digest.Algorithm} {path : String}

theorem AllJustified.of_append {later earlier : List Event}
    (h : AllJustified algorithm (later ++ earlier)) : AllJustified algorithm earlier := by
  induction later with
  | nil => exact h
  | cons event later ih => exact ih h.2

theorem Decided.cons {event : Event} (h : ∀ path content signature,
    event ≠ checked path content signature) (earlier : List Event) :
    Decided (event :: earlier) := by
  intro path content signature heq
  exact h path content signature (Option.some.inj heq)

theorem decided_remarks {remarks : List Event} (h : Remarks remarks) {journal : List Event}
    (hj : Decided journal) : Decided (remarks ++ journal) := by
  rcases remarks with _ | ⟨remark, rest⟩
  · exact hj
  · refine Decided.cons (fun path content signature heq => ?_) _
    have hremark := h remark List.mem_cons_self
    rw [heq] at hremark
    cases hremark

theorem allJustified_remarks {remarks : List Event} (h : Remarks remarks) {journal : List Event}
    (hj : AllJustified algorithm journal) (hd : Decided journal) :
    AllJustified algorithm (remarks ++ journal) := by
  induction remarks with
  | nil => exact hj
  | cons remark rest ih =>
      have hrest : Remarks rest := fun e he => h e (List.mem_cons_of_mem _ he)
      refine ⟨?_, ih hrest⟩
      have hremark := h remark List.mem_cons_self
      cases remark with
      | resolved _ _ _ => exact decided_remarks hrest hd
      | unreadable _ _ => exact decided_remarks hrest hd
      | _ => cases hremark

theorem standing?_remarks {remarks : List Event} (h : Remarks remarks) (path : String)
    (journal : List Event) : standing? path (remarks ++ journal) = standing? path journal := by
  induction remarks with
  | nil => rfl
  | cons remark rest ih =>
      have hrest := ih fun e he => h e (List.mem_cons_of_mem _ he)
      have hremark := h remark List.mem_cons_self
      cases remark with
      | resolved _ _ _ => exact hrest
      | unreadable _ _ => exact hrest
      | _ => cases hremark

theorem signature?_remarks {remarks : List Event} (h : Remarks remarks) (path : String)
    (journal : List Event) : signature? path (remarks ++ journal) = signature? path journal := by
  simp only [signature?, standing?_remarks h]

/-- Where the check that is in force stands in the journal. -/
theorem exists_of_standing? {journal : List Event} {content : Option ByteArray}
    {signature : Option Signature} (h : standing? path journal = some (content, signature)) :
    ∃ since earlier, journal = since ++ checked path content signature :: earlier ∧
      ∀ event ∈ since, event.supersedes path = false := by
  induction journal with
  | nil => cases h
  | cons event earlier ih =>
      -- an event that supersedes nothing joins those since the check
      have later (hkeep : event.supersedes path = false)
          (h : standing? path earlier = some (content, signature)) :
          ∃ since before, event :: earlier = since ++ checked path content signature :: before ∧
            ∀ e ∈ since, e.supersedes path = false := by
        obtain ⟨since, before, rfl, hsince⟩ := ih h
        refine ⟨event :: since, before, rfl, ?_⟩
        rintro e he
        rcases List.mem_cons.mp he with rfl | he
        · exact hkeep
        · exact hsince e he
      cases event with
      | checked other found foundSignature =>
          by_cases hother : other = path
          · subst hother
            simp only [standing?, if_pos, Option.some.injEq, Prod.mk.injEq] at h
            obtain ⟨rfl, rfl⟩ := h
            exact ⟨[], earlier, rfl, by simp⟩
          · simp only [standing?, if_neg hother] at h
            exact later (by simpa [supersedes] using hother) h
      | forgotten other =>
          by_cases hother : other = path
          · simp [standing?, hother] at h
          · simp only [standing?, if_neg hother] at h
            exact later (by simpa [supersedes] using hother) h
      | reset => cases h
      | _ => exact later rfl h

/-- In a justified journal, a check that is in force has the signature of what the file held. -/
theorem sign_of_standing? {journal : List Event} (hj : AllJustified algorithm journal)
    {content : Option ByteArray} {signature : Option Signature}
    (h : standing? path journal = some (content, signature)) :
    signature = content.map algorithm.sign := by
  obtain ⟨since, earlier, rfl, -⟩ := exists_of_standing? h
  exact hj.of_append.1.1

/-- Events between two starts of a module that could not make it start again. -/
def Uneventful (path : String) (event : Event) : Prop :=
  event ≠ reset ∧ event ≠ forgotten path ∧ ∀ depth, event ≠ started path depth

/-- The journal without a check that is not decided upon yet. -/
def beforeOpenCheck : List Event → List Event
  | checked _ _ _ :: earlier => earlier
  | journal => journal

theorem beforeOpenCheck_of_decided {journal : List Event} (h : Decided journal) :
    beforeOpenCheck journal = journal := by
  unfold beforeOpenCheck
  split
  · rename_i other content signature earlier
    exact (h other content signature rfl).elim
  · rfl

/-- As long as a module is neither forgotten nor started again, the signature that it was started
with stays in force: a later check could only skip it, and so found the same signature. -/
theorem signature?_since_start {between before : List Event} {depth : Nat}
    {content : Option ByteArray} {signature : Option Signature}
    (hj : AllJustified algorithm
      (between ++ started path depth :: checked path content signature :: before))
    (hb : ∀ event ∈ between, event.Uneventful path) :
    signature? path (beforeOpenCheck
      (between ++ started path depth :: checked path content signature :: before)) =
        signature := by
  induction between with
  | nil => simp [beforeOpenCheck, signature?, standing?]
  | cons event rest ih =>
      rw [List.cons_append] at hj ⊢
      obtain ⟨hevent, hrest⟩ := hj
      replace ih := ih hrest fun e he => hb e (List.mem_cons_of_mem _ he)
      have huneventful := hb event List.mem_cons_self
      -- a check before the event is part of what justifies it; any other event comes after a
      -- decided journal
      cases event with
      | checked other found foundSignature =>
          rwa [beforeOpenCheck_of_decided hevent.2] at ih
      | started other otherDepth =>
          obtain ⟨found, foundSignature, older, heq, -⟩ := hevent
          have hother : other ≠ path := fun h => huneventful.2.2 otherDepth (by rw [h])
          rw [heq] at ih
          simpa [beforeOpenCheck, heq, signature?, standing?, hother] using ih
      | skipped other =>
          obtain ⟨found, foundSignature, older, heq, hsame⟩ := hevent
          rw [heq] at ih
          by_cases hother : other = path
          · subst hother
            have hsignature : some foundSignature = signature := hsame.symm.trans ih
            simpa [beforeOpenCheck, heq, signature?, standing?] using hsignature
          · simpa [beforeOpenCheck, heq, signature?, standing?, hother] using ih
      | forgotten other =>
          have hother : other ≠ path := fun h => huneventful.2.1 (by rw [h])
          rw [beforeOpenCheck_of_decided hevent] at ih
          simpa [beforeOpenCheck, signature?, standing?, hother] using ih
      | reset => exact (huneventful.1 rfl).elim
      | resolved _ _ _ =>
          rwa [beforeOpenCheck_of_decided hevent] at ih
      | unreadable _ _ =>
          rwa [beforeOpenCheck_of_decided hevent] at ih

/-- Two starts of a module, with nothing between them that could make it start again, follow checks
that found different signatures, or one that found none. -/
theorem signatures_of_restart {later between earlier : List Event} {depth depth' : Nat}
    (hj : AllJustified algorithm
      (later ++ started path depth' :: (between ++ started path depth :: earlier)))
    (hb : ∀ event ∈ between, event.Uneventful path) :
    ∃ content content' signature signature' rest before,
      between = checked path content' signature' :: rest ∧
      earlier = checked path content signature :: before ∧
      (signature ≠ signature' ∨ signature = none ∨ signature' = none) := by
  obtain ⟨⟨content', signature', older, heq, hnew⟩, hj⟩ := hj.of_append
  rcases between with _ | ⟨next, rest⟩
  · cases heq
  · rw [List.cons_append] at heq hj
    obtain ⟨rfl, rfl⟩ := List.cons.inj heq
    obtain ⟨⟨content, signature, before, rfl, -⟩, -⟩ := hj.2.of_append
    refine ⟨content, content', signature, signature', rest, before, rfl, rfl, ?_⟩
    -- the second check found in force what the first start left
    have hforce := signature?_since_start hj.2 fun e he => hb e (List.mem_cons_of_mem _ he)
    rw [beforeOpenCheck_of_decided hj.1.2] at hforce
    rw [hforce] at hnew
    rcases hnew with hnone | hne
    · exact .inr (.inr hnone)
    · exact .inl hne

end Event

namespace Loader

variable {σ α β : Type} {executor : Executor σ}

/-- The cache is what the journal says, and the journal is justified. -/
structure Faithful (loader : Loader σ) : Prop where
  recorded : ∀ path,
    loader.cache.records.lookup path = (Event.standing? path loader.journal).map (·.2)
  justified : Event.AllJustified loader.cache.algorithm loader.journal
  decided : Event.Decided loader.journal

theorem Faithful.signatureOf {loader : Loader σ} (h : Faithful loader) (path : String) :
    loader.cache.signatureOf path = Event.signature? path loader.journal := by
  simp only [Cache.signatureOf, h.recorded, Event.signature?]
  cases Event.standing? path loader.journal <;> rfl

theorem faithful_start (machine : Machine) (algorithm : Digest.Algorithm)
    (baseline : List String) (host : σ) :
    Faithful (start machine algorithm baseline host) where
  recorded _ := rfl
  justified := trivial
  decided := by simp [start, Event.Decided]

/-- Only the cache and the journal matter. -/
theorem Faithful.of_same {before after : Loader σ} (h : Faithful before)
    (hcache : after.cache = before.cache) (hjournal : after.journal = before.journal) :
    Faithful after where
  recorded path := by rw [hcache, hjournal]; exact h.recorded path
  justified := by rw [hcache, hjournal]; exact h.justified
  decided := by rw [hjournal]; exact h.decided

theorem Faithful.noting {loader : Loader σ} (h : Faithful loader) {remarks : List Event}
    (hr : Remarks remarks) : Faithful (loader.noting remarks) where
  recorded path := by
    rw [journal_noting, Event.standing?_remarks hr]
    exact h.recorded path
  justified := Event.allJustified_remarks hr h.justified h.decided
  decided := Event.decided_remarks hr h.decided

theorem Faithful.forgotten {loader : Loader σ} (h : Faithful loader) {remarks : List Event}
    (hr : Remarks remarks) (path : String) :
    Faithful ({ loader with cache := (loader.cache.forget path).2 }.noting
      (.forgotten path :: remarks)) where
  recorded other := by
    simp only [journal_noting, List.cons_append, Event.standing?]
    by_cases hother : path = other
    · subst hother
      rw [if_pos rfl]
      exact Cache.lookup_forget_self loader.cache path
    · rw [if_neg hother, Event.standing?_remarks hr]
      exact (Cache.lookup_forget_of_ne (Ne.symm hother) _).trans (h.recorded other)
  justified :=
    ⟨Event.decided_remarks hr h.decided, Event.allJustified_remarks hr h.justified h.decided⟩
  decided := Event.Decided.cons (fun _ _ _ heq => by cases heq) _

theorem Faithful.reset {loader : Loader σ} (h : Faithful loader) : Faithful loader.reset where
  recorded _ := rfl
  justified := ⟨h.decided, h.justified⟩
  decided := Event.Decided.cons (fun _ _ _ heq => by cases heq) _

/-- What the signature of a file is computed from. -/
theorem signature_eq_sign {machine : Machine} {algorithm : Digest.Algorithm} {path : String}
    {signature : Option Signature} (h : machine.signature algorithm path = .ok signature) :
    signature = (machine.read path).toOption.map algorithm.sign := by
  unfold Machine.signature at h
  split at h
  · rename_i bytes hread
    cases h
    rw [hread]
    rfl
  · cases h
  · rename_i error _ hread
    cases h
    rw [hread]
    rfl

/-- A check keeps the record; only what was decided upon it is missing in the journal. -/
theorem Faithful.checked {loader : Loader σ} (h : Faithful loader) {requested path : String}
    {signature : Option Signature} (checks : Checks loader requested path signature)
    {remarks : List Event} (hr : Remarks remarks) :
    (∀ other, (loader.recorded path signature remarks).cache.records.lookup other =
      (Event.standing? other (loader.recorded path signature remarks).journal).map (·.2)) ∧
    Event.AllJustified loader.cache.algorithm (loader.recorded path signature remarks).journal := by
  constructor
  · intro other
    simp only [Loader.recorded, Event.standing?]
    by_cases hother : path = other
    · subst hother
      rw [if_pos rfl]
      exact Cache.lookup_record_self loader.cache path signature
    · rw [if_neg hother, Event.standing?_remarks hr]
      exact (Cache.lookup_record_of_ne (Ne.symm hother) _ _).trans (h.recorded other)
  · exact ⟨⟨signature_eq_sign checks.signature, Event.decided_remarks hr h.decided⟩,
      Event.allJustified_remarks hr h.justified h.decided⟩

theorem Faithful.settled {loader after : Loader σ} (h : Faithful loader) {requested : String}
    {given : Except Fault Script.Value}
    (verdict : loader.judge requested = (.settled given, after)) : Faithful after := by
  cases judged verdict with
  | unresolved _ hr => exact h.noting hr
  | notAFile _ _ hr => exact h.noting hr
  | notCanonical _ _ _ hr => exact h.noting hr
  | @upToDate path signature remarks checks same hr =>
      obtain ⟨hrecorded, hjustified⟩ := h.checked checks hr
      have hforce : Event.signature? path (remarks ++ loader.journal) = some signature := by
        rw [Event.signature?_remarks hr, ← h.signatureOf path, same]
      exact {
        recorded := hrecorded
        justified := ⟨⟨_, _, _, rfl, hforce⟩, hjustified⟩
        decided := Event.Decided.cons (fun _ _ _ heq => by cases heq) _ }

theorem Faithful.enter {loader entered : Loader σ} (h : Faithful loader)
    {requested path : String} (verdict : loader.judge requested = (.due path, entered)) :
    Faithful (entered.enter path) := by
  cases judged verdict with
  | @due _ signature remarks checks new hr =>
      obtain ⟨hrecorded, hjustified⟩ := h.checked checks hr
      have hnew : signature = none ∨
          Event.signature? path (remarks ++ loader.journal) ≠ signature := by
        rw [Event.signature?_remarks hr, ← h.signatureOf path]
        exact new
      exact {
        recorded := hrecorded
        justified := ⟨⟨_, _, _, rfl, hnew⟩, hjustified⟩
        decided := Event.Decided.cons (fun _ _ _ heq => by cases heq) _ }

theorem Faithful.answer {loader : Loader σ} (h : Faithful loader) (request : Request σ) :
    Faithful (loader.answer request).2 := by
  cases request with
  | resolve requested =>
      obtain ⟨remarks, hr, heq⟩ := exists_resolve loader requested
      simp only [Loader.answer, heq]
      exact h.noting hr
  | isLoaded requested =>
      obtain ⟨remarks, hr, heq⟩ := exists_isLoaded loader requested
      simp only [Loader.answer, heq]
      exact h.noting hr
  | forget requested =>
      obtain ⟨remarks, hr, heq | ⟨path, -, heq⟩⟩ := forget_cases loader requested
      · simp only [Loader.answer, heq]
        exact h.noting hr
      · simp only [Loader.answer, heq]
        exact h.forgotten hr path
  | reset => exact h.reset
  | _ => exact h.of_same rfl rfl

theorem kept_faithful :
    Kept (σ := σ) (fun _ => True) fun before after => Faithful before → Faithful after where
  refl _ := id
  trans h₁ h₂ h := h₂ (h₁ h)
  answer _ request _ h := h.answer request
  settled verdict h := h.settled verdict
  module verdict body h := (body (h.enter verdict)).of_same rfl rfl

theorem Faithful.reaches {program : Program σ α} {loader now : Loader σ} {active : List String}
    {left : Program σ β} (h : Faithful loader)
    (reaches : Reaches executor program loader active left now) : Faithful now :=
  reaches.kept kept_faithful (fun verdict h => h.enter verdict) (fun _ => Program.asks_true _)
    (Program.asks_true _) h

/-- A load of a regular file that starts no module finds the module up to date. -/
theorem upToDate_of_not_started {depth : Nat} {safe : Bool} {requested path : String}
    {loader after : Loader σ} {outcome : Except Fault Script.Value} {events : List Event}
    (call : callWith (execute executor depth) safe requested loader = some (outcome, after))
    (journal : after.journal = events ++ loader.journal)
    (target : loader.target requested = .ok path)
    (isFile : loader.machine.isFile path = true)
    (absolute : Path.isAbsolute loader.machine.workingDirectory = true)
    (notStarted : ∀ depth, Event.started path depth ∉ events) :
    ∃ signature, Checks loader requested path (some signature) ∧
      loader.cache.signatureOf path = some signature := by
  rcases verdict : loader.judge requested with ⟨given, middle⟩
  cases judged verdict with
  | unresolved htarget _ =>
      rw [target] at htarget
      cases htarget
  | notAFile htarget hfile _ =>
      rw [target] at htarget
      cases htarget
      rw [isFile] at hfile
      cases hfile
  | notCanonical htarget _ canonical _ =>
      exact (canonical (canonical_of_target absolute htarget)).elim
  | upToDate checks same _ =>
      have hpath := checks.target
      rw [target] at hpath
      cases hpath
      exact ⟨_, checks, same⟩
  | due checks _ _ =>
      have hpath := checks.target
      rw [target] at hpath
      cases hpath
      exact (notStarted _ (started_mem_of_due verdict call journal)).elim

/-- At every moment of every run that begins with a new loader:

* if a module was started twice, and was neither forgotten nor started nor the loader reset in
  between, then the checks before the two starts found different signatures, or one of them found
  none;
* if a load whose name means a regular file starts no module, then the file was checked before, was
  not forgotten since, and had at the latest check the signature that it has now. So if the digest
  does not collide on the contents that occur, the file holds what it held then.

Modules may do anything, and may end with a fault; the file system may change at any time. The
working directory is an absolute path, as on every machine. -/
theorem executions_follow_content {machine : Machine} {algorithm : Digest.Algorithm}
    {baseline : List String} {host : σ} {program : Program σ α} {active : List String}
    {left : Program σ β} {now : Loader σ}
    (reached : Reaches executor program (start machine algorithm baseline host) active left now)
    (path : String) :
    (∀ later between earlier depth depth',
      now.journal =
        later ++ .started path depth' :: (between ++ .started path depth :: earlier) →
      (∀ event ∈ between, event.Uneventful path) →
      ∃ content content' signature signature' rest before,
        between = .checked path content' signature' :: rest ∧
        earlier = .checked path content signature :: before ∧
        (signature ≠ signature' ∨ signature = none ∨ signature' = none)) ∧
    ∀ depth safe requested outcome after events,
      callWith (execute executor depth) safe requested now = some (outcome, after) →
      after.journal = events ++ now.journal →
      now.target requested = .ok path →
      now.machine.isFile path = true →
      Path.isAbsolute now.machine.workingDirectory = true →
      (∀ depth, Event.started path depth ∉ events) →
      ∃ since earlier bytes current signature,
        now.journal = since ++ .checked path (some bytes) (some signature) :: earlier ∧
        (∀ event ∈ since, event.supersedes path = false) ∧
        now.machine.signature now.cache.algorithm path = .ok (some signature) ∧
        now.machine.read path = .ok current ∧
        now.cache.algorithm.sign bytes = signature ∧
        now.cache.algorithm.sign current = signature ∧
        ∀ contents : Set ByteArray, Set.InjOn now.cache.algorithm.sign contents →
          bytes ∈ contents → current ∈ contents → current = bytes := by
  have faithful := (faithful_start machine algorithm baseline host).reaches reached
  constructor
  · intro later between earlier depth depth' hjournal huneventful
    have hjustified := faithful.justified
    rw [hjournal] at hjustified
    exact Event.signatures_of_restart hjustified huneventful
  · intro depth safe requested outcome after events call journal target isFile absolute notStarted
    obtain ⟨signature, checks, same⟩ :=
      upToDate_of_not_started call journal target isFile absolute notStarted
    rw [faithful.signatureOf, Event.signature?, Option.bind_eq_some_iff] at same
    obtain ⟨⟨content, _⟩, standing, rfl⟩ := same
    obtain ⟨since, earlier, hjournal, hsince⟩ := Event.exists_of_standing? standing
    -- both signatures are those of contents, then and now
    have hthen := Event.sign_of_standing? faithful.justified standing
    obtain ⟨bytes, rfl, hbytes⟩ := Option.map_eq_some_iff.mp hthen.symm
    have hnow := signature_eq_sign checks.signature
    obtain ⟨current, hread, hcurrent⟩ := Option.map_eq_some_iff.mp hnow.symm
    refine ⟨since, earlier, bytes, current, signature, hjournal, hsince, checks.signature, ?_,
      hbytes, hcurrent, ?_⟩
    · rcases hmachine : now.machine.read path with error | found
      · rw [hmachine] at hread
        cases hread
      · rw [hmachine] at hread
        cases hread
        rfl
    · intro contents injective hthen hnow
      exact injective hnow hthen (hcurrent.trans hbytes.symm)

def silentModules : Executor Unit := fun _ => .done (.ok .nil)

def rewriting : Program Unit Script.Value :=
  .load false "/a" fun _ => .ask (.edit (.write "/a" ⟨⟨#[121]⟩, true⟩)) fun _ =>
    .load false "/a" .done

def rewritten : Loader Unit :=
  start ⟨⟨"/", "", []⟩, .build [] [(["a"], ⟨⟨#[120]⟩, true⟩)]⟩ .md5 [] ()

def rewritingJournal : List Event :=
  [.started "/a" 1, .checked "/a" (some ⟨#[121]⟩) (some (Digest.Algorithm.sign .md5 ⟨#[121]⟩)),
    .started "/a" 1, .checked "/a" (some ⟨#[120]⟩) (some (Digest.Algorithm.sign .md5 ⟨#[120]⟩))]

/-- The two starts of `/a` have different signatures, and a third load finds the second one. -/
theorem executions_follow_content_rewriting :
    ∃ (outcome : Except Fault Script.Value) (now : Loader Unit),
      Reaches silentModules rewriting rewritten [] (.done outcome) now ∧
      now.journal = rewritingJournal ∧
      Digest.Algorithm.sign .md5 ⟨#[120]⟩ ≠ Digest.Algorithm.sign .md5 ⟨#[121]⟩ ∧
      ∃ signature, now.machine.signature now.cache.algorithm "/a" = .ok (some signature) := by
  have htwice : ((run silentModules 1 rewriting rewritten).map fun r =>
      (r.2.journal, r.2.target "/a", r.2.machine.isFile "/a",
        Path.isAbsolute r.2.machine.workingDirectory)) =
      some (rewritingJournal, .ok "/a", true, true) := by
    decide +kernel
  have hthird : ((run silentModules 1 rewriting rewritten).bind fun r =>
      (callWith (execute silentModules 1) true "/a" r.2).map fun c => c.2.journal) =
      some (([.skipped "/a",
        .checked "/a" (some ⟨#[121]⟩) (some (Digest.Algorithm.sign .md5 ⟨#[121]⟩))] : List Event) ++
          rewritingJournal) := by
    decide +kernel
  obtain ⟨⟨outcome, now⟩, hrun, hnow⟩ := Option.map_eq_some_iff.mp htwice
  simp only [Prod.mk.injEq] at hnow
  obtain ⟨hjournal, htarget, hfile, habsolute⟩ := hnow
  simp only [hrun, Option.bind_some] at hthird
  obtain ⟨⟨given, after⟩, hcall, hafter⟩ := Option.map_eq_some_iff.mp hthird
  have reached := (runs_of_run hrun).reaches
  have hboth := executions_follow_content reached "/a"
  obtain ⟨content, content', signature, signature', rest, before, hbetween, hearlier, hdiffer⟩ :=
    hboth.1 [] [.checked "/a" (some ⟨#[121]⟩) (some (Digest.Algorithm.sign .md5 ⟨#[121]⟩))] _ 1 1
      hjournal (by simp [Event.Uneventful])
  obtain ⟨since, earlier, bytes, current, signature, -, -, hsignature, -⟩ :=
    hboth.2 1 true "/a" given after _ hcall (hafter.trans (by rw [hjournal])) htarget hfile
      habsolute (by simp)
  cases hbetween
  cases hearlier
  exact ⟨outcome, now, reached, hjournal, by simpa using hdiffer, signature, hsignature⟩

end Loader

end ScriptLoader
