import ScriptLoader.Proofs.Runs
import ScriptLoader.Proofs.Steps

/-!
A load leaves no trace in the search path and on the load stack, however it ends. The search path
is put back from a copy. The stack is only popped, and a module may empty it by a reset while loads
around it are still active; the pops that are then still to come find it empty.
-/

namespace ScriptLoader

def Request.LeavesStack {σ : Type} : Request σ → Prop
  | .push _ => False
  | _ => True

namespace Loader

variable {σ : Type} {executor : Executor σ}

/-- Between two loaders the stack has not changed, or it is empty if there was a reset. -/
def StackRestored (before after : Loader σ) : Prop :=
  ∃ events, after.journal = events ++ before.journal ∧
    after.stack = if Event.reset ∈ events then .empty else before.stack

theorem StackRestored.of_noting {loader : Loader σ} {events : List Event}
    (h : Event.reset ∉ events) : StackRestored loader (loader.noting events) :=
  ⟨events, rfl, by simp [noting, h]⟩

theorem StackRestored.of_same {before after : Loader σ} (hjournal : after.journal = before.journal)
    (hstack : after.stack = before.stack) : StackRestored before after :=
  ⟨[], by simpa using hjournal, by simpa using hstack⟩

theorem StackRestored.trans {first second third : Loader σ} (h₁ : StackRestored first second)
    (h₂ : StackRestored second third) : StackRestored first third := by
  obtain ⟨earlier, hj₁, hs₁⟩ := h₁
  obtain ⟨later, hj₂, hs₂⟩ := h₂
  refine ⟨later ++ earlier, by rw [hj₂, hj₁, List.append_assoc], ?_⟩
  rw [hs₂, hs₁]
  -- a later reset hides whatever was there before it
  by_cases hl : Event.reset ∈ later
  · simp [hl]
  · simp [hl]

theorem stackRestored_answer (loader : Loader σ) (request : Request σ)
    (hrequest : request.LeavesStack) : StackRestored loader (loader.answer request).2 := by
  cases request with
  | resolve requested =>
      obtain ⟨remarks, hr, heq⟩ := exists_resolve loader requested
      simp only [answer, heq]
      exact .of_noting (hr.not_mem rfl)
  | isLoaded requested =>
      obtain ⟨remarks, hr, heq⟩ := exists_isLoaded loader requested
      simp only [answer, heq]
      exact .of_noting (hr.not_mem rfl)
  | forget requested =>
      obtain ⟨remarks, hr, heq | ⟨path, -, heq⟩⟩ := forget_cases loader requested
      · simp only [answer, heq]
        exact .of_noting (hr.not_mem rfl)
      · have hmem : Event.reset ∉ Event.forgotten path :: remarks := by
          simp [hr.reset_not_mem]
        simp only [answer, heq]
        exact StackRestored.trans (.of_same rfl rfl) (.of_noting hmem)
  | reset => exact ⟨[.reset], rfl, by simp [answer, reset, note]⟩
  | push path => exact hrequest.elim
  | _ => exact .of_same rfl rfl

theorem stackRestored_settled {loader after : Loader σ} {requested : String}
    {given : Except Fault Script.Value} (h : loader.judge requested = (.settled given, after)) :
    StackRestored loader after := by
  cases judged h with
  | unresolved _ hr => exact .of_noting (hr.not_mem rfl)
  | notAFile _ _ hr => exact .of_noting (hr.not_mem rfl)
  | notCanonical _ _ _ hr => exact .of_noting (hr.not_mem rfl)
  | @upToDate path signature remarks _ _ hr =>
      refine ⟨.skipped path :: .checked path (loader.machine.read path).toOption (some signature) ::
        remarks, rfl, ?_⟩
      simp [recorded, note, hr.reset_not_mem]

/-- When a module ends, its own entry is on top of the stack, or there was a reset and the stack is
empty: taking one entry away undoes the entry of that module and no other. -/
theorem stack_at_end {loader entered inner : Loader σ} {requested path : String}
    (h : loader.judge requested = (.due path, entered))
    (body : StackRestored (entered.enter path) inner) :
    ∃ events, inner.journal = events ++ loader.journal ∧
      inner.stack = if Event.reset ∈ events then .empty else loader.stack.push path := by
  obtain ⟨events, hjournal, hstack⟩ := body
  cases judged h with
  | @due _ signature remarks _ _ hr =>
      refine ⟨events ++ .started path (loader.stack.depth + 1) ::
        .checked path (loader.machine.read path).toOption signature :: remarks, ?_, ?_⟩
      · rw [hjournal]
        simp [enter, recorded, note]
      · rw [hstack]
        simp [enter, recorded, note, hr.reset_not_mem]

theorem stackRestored_module {loader entered inner : Loader σ} {requested path : String}
    (h : loader.judge requested = (.due path, entered))
    (body : StackRestored (entered.enter path) inner) :
    StackRestored loader (inner.leave entered.searchPath) := by
  obtain ⟨events, hjournal, hstack⟩ := stack_at_end h body
  refine ⟨events, hjournal, ?_⟩
  simp only [leave, hstack]
  split
  · exact LoadStack.pop_empty
  · exact LoadStack.pop_push _ _

theorem kept_stackRestored :
    Kept (σ := σ) Request.LeavesStack StackRestored where
  refl _ := .of_same rfl rfl
  trans := .trans
  answer := stackRestored_answer
  settled := stackRestored_settled
  module := stackRestored_module

theorem searchPath_of_judge {loader after : Loader σ} {requested : String} {verdict : Verdict}
    (h : loader.judge requested = (verdict, after)) : after.searchPath = loader.searchPath := by
  cases judged h <;> rfl

/-- A load or a safe load, from any loader and at any depth, of modules that do anything but push
on the stack: when it ends, with a value, a fault or an interrupt, the search path is what it was,
and so is the stack, unless there was a reset in the meantime, which leaves it empty. Whenever the
module that it runs ends, there is nothing above the module's own entry, and if that entry is gone
there is nothing at all. -/
theorem call_restores (modules : ∀ path, (executor path).Asks Request.LeavesStack) {depth : Nat}
    {safe : Bool} {requested : String} {loader after : Loader σ}
    {outcome : Except Fault Script.Value}
    (call : callWith (execute executor depth) safe requested loader = some (outcome, after)) :
    after.searchPath = loader.searchPath ∧
      (∃ events, after.journal = events ++ loader.journal ∧
        after.stack = if Event.reset ∈ events then .empty else loader.stack) ∧
      ∀ path entered given inner, loader.judge requested = (.due path, entered) →
        execute executor depth path (entered.enter path) = some (given, inner) →
          inner.stack = loader.stack.push path ∨ inner.stack = .empty := by
  have hbody {path : String} {entered inner : Loader σ} {given : Except Fault Script.Value}
      (body : execute executor depth path (entered.enter path) = some (given, inner)) :
      StackRestored (entered.enter path) inner :=
    (runs_of_execute body).kept kept_stackRestored modules (modules _)
  refine ⟨?_, ?_, ?_⟩
  · obtain ⟨given, verdict, -⟩ | ⟨path, entered, given, inner, verdict, -, -, rfl⟩ :=
      callWith_cases call
    · exact searchPath_of_judge verdict
    · -- what the module did to the search path is dropped with the module
      show entered.searchPath = loader.searchPath
      exact searchPath_of_judge verdict
  · obtain ⟨given, verdict, -⟩ | ⟨path, entered, given, inner, verdict, body, -, rfl⟩ :=
      callWith_cases call
    · exact stackRestored_settled verdict
    · exact stackRestored_module verdict (hbody body)
  · intro path entered given inner verdict body
    obtain ⟨events, -, hstack⟩ := stack_at_end verdict (hbody body)
    rw [hstack]
    split
    · exact .inr rfl
    · exact .inl rfl

/-- `/a` loads `/b`, which resets the loader and loads `/c`. Then `/a` changes the search path and
is interrupted. -/
def resettingModules : Executor Unit
  | "/a" =>
    .load true "b" fun _ => .ask (.setBaseline ["/x"]) fun _ =>
      .done (.error (.foreign .interrupt ""))
  | "/b" =>
    .ask (.inject "/x/y") fun _ => .ask .reset fun _ => .load false "/c" fun _ => .done (.ok .nil)
  | _ => .done (.ok .skipped)

theorem asks_resettingModules (path : String) :
    (resettingModules path).Asks Request.LeavesStack := by
  unfold resettingModules
  split <;> simp [Program.Asks, Request.LeavesStack]

def resettingLoader : Loader Unit :=
  { start ⟨⟨"/", "", []⟩, .build [] ([["a"], ["b"], ["c"]].map (·, ⟨.empty, false⟩))⟩ .md5 ["."] ()
    with stack := ⟨["/z"]⟩ }

theorem call_restores_resettingLoader :
    (∀ path, (resettingModules path).Asks Request.LeavesStack) ∧
      ∃ outcome after,
        callWith (execute resettingModules 3) true "a" resettingLoader = some (outcome, after) ∧
        after.searchPath = ⟨[], ["."]⟩ ∧
        ∃ events, after.journal = events ∧
          after.stack = if Event.reset ∈ events then .empty else ⟨["/z"]⟩ := by
  have hsome : (callWith (execute resettingModules 3) true "a" resettingLoader).isSome = true := by
    decide +kernel
  obtain ⟨⟨outcome, after⟩, call⟩ := Option.isSome_iff_exists.mp hsome
  obtain ⟨hpath, ⟨events, hjournal, hstack⟩, -⟩ := call_restores asks_resettingModules call
  exact ⟨asks_resettingModules, outcome, after, call, hpath, events,
    by simpa [resettingLoader, start] using hjournal, hstack⟩

end Loader

end ScriptLoader
