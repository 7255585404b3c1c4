import ScriptLoader.Proofs.Runs
import ScriptLoader.Script.Evaluation

/-!
What scripts do to their loader. They ask for nothing but the host and their own file, and they
cannot catch the fault of a load, so it ends every script around it.
-/

namespace ScriptLoader

def Request.IsHostly {σ : Type} : Request σ → Prop
  | .read _ | .host | .setHost _ => True
  | _ => False

/-- Nothing but what scripts share changes when they are answered. -/
theorem Loader.exists_answer_of_hostly {σ : Type} (loader : Loader σ) {request : Request σ}
    (h : request.IsHostly) : ∃ host, (loader.answer request).2 = { loader with host } := by
  cases request with
  | read path => exact ⟨loader.host, rfl⟩
  | host => exact ⟨loader.host, rfl⟩
  | setHost host => exact ⟨host, rfl⟩
  | _ => exact h.elim

/-- They leave the machine as it is. -/
theorem Loader.kept_machine {σ : Type} :
    Kept (σ := σ) Request.IsHostly fun before after => after.machine = before.machine where
  refl _ := rfl
  trans h₁ h₂ := h₂.trans h₁
  answer loader _ h := by
    obtain ⟨host, heq⟩ := loader.exists_answer_of_hostly h
    rw [heq]
  settled := machine_judge
  module verdict body := by
    have hentered := machine_judge verdict
    exact body.trans hentered

namespace Program

variable {σ α β : Type}

/-- A program that asks for nothing but the host and files, and lets the fault of a load pass. -/
def Steady : Program σ α → Prop
  | .done _ => True
  | .load _ _ next =>
    (∀ fault, ∃ fault', next (.error fault) = .done (.error fault')) ∧
      ∀ answer, (next answer).Steady
  | .ask request next => request.IsHostly ∧ ∀ answer, (next answer).Steady

theorem Steady.asks {program : Program σ α} (h : program.Steady) :
    program.Asks Request.IsHostly := by
  induction program with
  | done _ => trivial
  | load _ _ _ ih => exact fun answer => ih answer (h.2 answer)
  | ask _ _ ih => exact ⟨h.1, fun answer => ih answer (h.2 answer)⟩

theorem Steady.bind {program : Program σ α} {next : α → Program σ β} (h : program.Steady)
    (hnext : ∀ a, (next a).Steady) : (program.bind next).Steady := by
  induction program with
  | done outcome =>
      cases outcome with
      | error fault => trivial
      | ok a => exact hnext a
  | load safe requested rest ih =>
      refine ⟨fun fault => ?_, fun answer => ih answer (h.2 answer)⟩
      obtain ⟨fault', heq⟩ := h.1 fault
      exact ⟨fault', by simp only [heq, done_error_bind]⟩
  | ask request rest ih => exact ⟨h.1, fun answer => ih answer (h.2 answer)⟩

theorem steady_call (safe : Bool) (requested : String) :
    (call safe requested : Program σ Script.Value).Steady :=
  ⟨fun fault => ⟨fault, rfl⟩, fun _ => trivial⟩

theorem steady_query {request : Request σ} (h : request.IsHostly) : (query request).Steady :=
  ⟨h, fun _ => trivial⟩

theorem steady_modifyHost (change : σ → σ) : (modifyHost change).Steady :=
  ⟨trivial, fun _ => ⟨trivial, fun _ => trivial⟩⟩

end Program

/-- Modules that are read from their files: first the file is read, and the module ends if it
cannot be; what follows is steady. -/
def ReadsFiles {σ : Type} (executor : Executor σ) : Prop :=
  ∀ path, ∃ next : Except AccessError ByteArray → Program σ Script.Value,
    executor path = .ask (.read path) next ∧
      (∀ error, ∃ fault, next (.error error) = .done (.error fault)) ∧
      ∀ answer, (next answer).Steady

theorem ReadsFiles.steady {σ : Type} {executor : Executor σ} (h : ReadsFiles executor)
    (path : String) : (executor path).Steady := by
  obtain ⟨next, heq, -, hnext⟩ := h path
  rw [heq]
  exact ⟨trivial, hnext⟩

theorem Loader.Reaches.machine_eq {σ α β : Type} {executor : Executor σ} {program : Program σ α}
    {loader now : Loader σ} {active : List String} {left : Program σ β}
    (reaches : Reaches executor program loader active left now) (files : ReadsFiles executor)
    (steady : program.Steady) : now.machine = loader.machine := by
  refine reaches.kept kept_machine (fun verdict => ?_) (fun path => (files.steady path).asks)
    steady.asks
  have hentered := machine_judge verdict
  exact hentered

namespace Script

/-- A property of programs that whole scripts have if their single steps have it. -/
structure Composable (P : ∀ {α : Type}, Program Host α → Prop) : Prop where
  done : ∀ {α : Type} (outcome : Except Fault α), P (.done outcome)
  bind : ∀ {α β : Type} {program : Program Host α} {next : α → Program Host β},
    P program → (∀ a, P (next a)) → P (program.bind next)
  call : ∀ safe requested, P (.call safe requested)
  host : P (.query .host)
  define : ∀ name value, P (.modifyHost (·.define name value))
  print : ∀ line, P (.modifyHost (·.print line))

namespace Composable

variable {P : ∀ {α : Type}, Program Host α → Prop}

theorem evaluate (h : Composable P) (file : Option String) (expr : Expr Numeral CodePoints) :
    P (expr.evaluate file) := by
  induction expr with
  | name identifier line =>
      refine h.bind h.host fun host => ?_
      cases host.value? identifier <;> exact h.done _
  | call request => exact h.call _ _
  | add left right hleft hright =>
      exact h.bind hleft fun a => h.bind hright fun b => h.done _
  | _ => exact h.done _

theorem perform (h : Composable P) (file : Option String)
    (statement : Statement Numeral CodePoints) : P (statement.perform file) := by
  cases statement with
  | assign target value line => exact h.bind (h.evaluate file value) fun v => h.define target v
  | print value line =>
      exact h.bind (h.evaluate file value) fun v => h.bind (h.done _) fun text =>
        h.bind (h.done _) fun line => h.print line
  | «return» value line => exact h.done _
  | fail value line =>
      exact h.bind (h.evaluate file value) fun v => h.bind (h.done _) fun message => h.done _
  | call request => exact h.bind (h.call _ _) fun v => h.done _

theorem runStatements (h : Composable P) (file : Option String)
    (statements : List (Statement Numeral CodePoints)) : P (runStatements file statements) := by
  induction statements with
  | nil => exact h.done _
  | cons statement rest ih =>
      cases statement with
      | «return» value line => exact h.evaluate file value
      | _ => exact h.bind (h.perform file _) fun _ => ih

/-- What follows the reading of a module's file. -/
theorem ofBytes (h : Composable P) (path : String) (bytes : ByteArray) :
    P ((Program.done (ofBytes path bytes)).bind run) :=
  h.bind (h.done _) fun script => h.runStatements script.file script.statements

theorem executor (h : Composable P) {path : String} (read : P (.query (.read path))) :
    P (executor path) := by
  refine h.bind read fun answer => ?_
  cases answer with
  | error error => exact h.done _
  | ok bytes => exact h.ofBytes path bytes

end Composable

theorem composable_steady : Composable Program.Steady where
  done _ := trivial
  bind := .bind
  call := Program.steady_call
  host := Program.steady_query (show Request.IsHostly .host from trivial)
  define _ _ := Program.steady_modifyHost _
  print _ := Program.steady_modifyHost _

theorem readsFiles_executor : ReadsFiles executor := by
  intro path
  refine ⟨_, rfl, fun error => ⟨.unreadable path error, rfl⟩, fun answer => ?_⟩
  cases answer with
  | error error => trivial
  | ok bytes => exact composable_steady.ofBytes path bytes

end Script

end ScriptLoader
