import ScriptLoader.Fault.Arguments
import ScriptLoader.Loader.Load
import ScriptLoader.Script.Expr

/-!
Steps: the single things that can be done with a loader from outside, each a program with an
answer. A session is a list of steps; a rehearsed module is one too.
-/

namespace ScriptLoader.Session

/-- Where a string is asked for, a session shows a text as messages show it. -/
instance : CoeOut CodePoints String := ⟨CodePoints.escaped⟩

/-- The same goes for the texts of statements. -/
instance {ν : Type} :
    CoeOut (List (Script.Statement ν CodePoints)) (List (Script.Statement ν String)) :=
  ⟨List.map (Script.Statement.map id CodePoints.escaped id)⟩

inductive Step where
  | load (safe : Bool) (requested : String)
  | isLoaded (requested : String)
  | forget (requested : String)
  | resolve (requested : String)
  | loadedModules
  | reset
  | signatureOf (path : String)
  | setBaseline (directories : List String)
  | appendBaseline (directory : String)
  | prependBaseline (directory : String)
  | push (path : String)
  | edit (change : Machine.Edit)
  /-- A step by a name that means none. -/
  | unknown (name : String)

inductive Answer where
  | nothing
  | value (value : Script.Value)
  | truth (truth : Bool)
  | text (text : String)
  | texts (texts : List String)
  /-- The outcomes of several things that were tried one after the other. -/
  | outcomes (outcomes : List (Except Fault (Option Script.Value)))

namespace Step

variable {σ : Type}

def program : Step → Program σ Answer
  | load safe requested => .load safe requested fun outcome => .done (outcome.map .value)
  | isLoaded requested => .ask (.isLoaded requested) fun answer => .done (answer.map .truth)
  | forget requested => .ask (.forget requested) fun answer => .done (answer.map .truth)
  | resolve requested => .ask (.resolve requested) fun answer => .done (answer.map .text)
  | loadedModules => .ask .loadedModules fun paths => .done (.ok (.texts paths))
  | reset => .ask .reset fun _ => .done (.ok .nothing)
  | signatureOf path =>
    .ask (.signatureOf path) fun
      | some signature => .done (.ok (.text signature))
      | none => .done (.ok .nothing)
  | setBaseline directories => .ask (.setBaseline directories) fun _ => .done (.ok .nothing)
  | appendBaseline directory => .ask (.appendBaseline directory) fun _ => .done (.ok .nothing)
  | prependBaseline directory => .ask (.prependBaseline directory) fun _ => .done (.ok .nothing)
  | push path => .ask (.push path) fun _ => .done (.ok .nothing)
  | edit change => .ask (.edit change) fun _ => .done (.ok .nothing)
  | unknown name => .fail (.missingKey name)

end Step

/-- Runs programs one after the other, each from the loader that the one before it leaves, and
gives each outcome with the loader after it. A run that nests too deeply ends the session. -/
def runAll {σ α : Type} (executor : Executor σ) (bound : Loader σ → Nat) :
    List (Program σ α) → Loader σ → List (Except Fault α × Loader σ)
  | [], _ => []
  | program :: rest, loader =>
    match loader.run executor (bound loader) program with
    | none => []
    | some (outcome, after) => (outcome, after) :: runAll executor bound rest after

end ScriptLoader.Session
