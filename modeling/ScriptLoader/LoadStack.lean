import ScriptLoader.Text.Quoted

/-!
The load stack: the modules that are being loaded, each one asked for by the one below it. The
same path may stand in it more than once.
-/

namespace ScriptLoader

/-- The active loads, newest first. -/
structure LoadStack where
  newestFirst : List String
  deriving DecidableEq

namespace LoadStack

def empty : LoadStack := ⟨[]⟩

def push (stack : LoadStack) (path : String) : LoadStack :=
  ⟨path :: stack.newestFirst⟩

def pop (stack : LoadStack) : LoadStack :=
  ⟨stack.newestFirst.tail⟩

def top (stack : LoadStack) : String :=
  stack.newestFirst.headD ""

def chain (stack : LoadStack) : List String :=
  stack.newestFirst.reverse

def depth (stack : LoadStack) : Nat :=
  stack.newestFirst.length

def describe (stack : LoadStack) : String :=
  "LoadStack(" ++ Text.quotedList stack.newestFirst ++ ")"

@[simp] theorem top_push (stack : LoadStack) (path : String) : (stack.push path).top = path := rfl

@[simp] theorem pop_push (stack : LoadStack) (path : String) : (stack.push path).pop = stack := rfl

@[simp] theorem pop_empty : empty.pop = empty := rfl

@[simp] theorem chain_push (stack : LoadStack) (path : String) :
    (stack.push path).chain = stack.chain ++ [path] := by
  simp [push, chain]

@[simp] theorem depth_push (stack : LoadStack) (path : String) :
    (stack.push path).depth = stack.depth + 1 := rfl

end LoadStack

end ScriptLoader
