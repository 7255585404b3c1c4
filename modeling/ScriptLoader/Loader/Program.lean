import ScriptLoader.Loader.State
import ScriptLoader.Script.Value

/-!
What a module may do while it runs, as a tree: it loads other modules, it asks the loader for
something or has it change something, and in the end it gives a value or a fault. A fault of a
load it has asked for is an answer like any other; the module may let it pass or go on.
-/

namespace ScriptLoader

/-- What a module may ask of its loader without running another module. -/
inductive Request (σ : Type) where
  | resolve (requested : String)
  | isLoaded (requested : String)
  | forget (requested : String)
  | loadedModules
  | signatureOf (path : String)
  | reset
  | searchPath
  | setBaseline (directories : List String)
  | appendBaseline (directory : String)
  | prependBaseline (directory : String)
  | inject (file : String)
  | restore (searchPath : SearchPath)
  | stack
  | push (path : String)
  | read (path : String)
  | edit (change : Machine.Edit)
  | host
  | setHost (host : σ)

namespace Request

variable {σ : Type}

abbrev Answer : Request σ → Type
  | resolve _ => Except Fault String
  | isLoaded _ => Except Fault Bool
  | forget _ => Except Fault Bool
  | loadedModules => List String
  | signatureOf _ => Option Signature
  | searchPath => SearchPath
  | stack => LoadStack
  | read _ => Except AccessError ByteArray
  | host => σ
  | reset | setBaseline _ | appendBaseline _ | prependBaseline _ | inject _ | restore _
  | push _ | edit _ | setHost _ => Unit

end Request

inductive Program (σ α : Type) where
  | done (outcome : Except Fault α)
  | load (safe : Bool) (requested : String) (next : Except Fault Script.Value → Program σ α)
  | ask (request : Request σ) (next : request.Answer → Program σ α)

namespace Program

variable {σ α β : Type}

def bind : Program σ α → (α → Program σ β) → Program σ β
  | done (.ok a), next => next a
  | done (.error fault), _ => done (.error fault)
  | load safe requested rest, next => load safe requested fun answer => bind (rest answer) next
  | ask request rest, next => ask request fun answer => bind (rest answer) next

instance : Monad (Program σ) where
  pure a := done (.ok a)
  bind := bind

def fail (fault : Fault) : Program σ α := done (.error fault)

def query (request : Request σ) : Program σ request.Answer :=
  ask request fun answer => done (.ok answer)

def call (safe : Bool) (requested : String) : Program σ Script.Value :=
  load safe requested done

/-- Runs a program to its outcome, so that its fault can be looked at. -/
def attempt : Program σ α → Program σ (Except Fault α)
  | done outcome => done (.ok outcome)
  | load safe requested rest => load safe requested fun answer => attempt (rest answer)
  | ask request rest => ask request fun answer => attempt (rest answer)

def modifyHost (change : σ → σ) : Program σ Unit :=
  ask .host fun host => ask (.setHost (change host)) fun _ => done (.ok ())

@[simp] theorem done_ok_bind (a : α) (next : α → Program σ β) :
    (done (.ok a)).bind next = next a := rfl

@[simp] theorem done_error_bind (fault : Fault) (next : α → Program σ β) :
    (done (.error fault)).bind next = done (.error fault) := rfl

@[simp] theorem bind_done (program : Program σ α) :
    (program.bind fun a => done (.ok a)) = program := by
  induction program with
  | done outcome => cases outcome <;> rfl
  | load safe requested rest ih => simp only [bind, ih]
  | ask request rest ih => simp only [bind, ih]

theorem bind_assoc {γ : Type} (program : Program σ α) (f : α → Program σ β)
    (g : β → Program σ γ) : (program.bind f).bind g = program.bind fun a => (f a).bind g := by
  induction program with
  | done outcome => cases outcome <;> rfl
  | load safe requested rest ih => simp only [bind, ih]
  | ask request rest ih => simp only [bind, ih]

end Program

end ScriptLoader
