import ScriptLoader.Proofs.Grammar

/-!
Derivations that are under way. A `Progress` holds the trees of the statements that are complete and
what there is of the open one, as the reader does with expressions; dropping the trees gives the
reader back. So the reader accepts exactly the tokens of some tree, there is one such tree, and what
it expects next is what some script goes on with.
-/

namespace ScriptLoader.Script.Grammar

inductive Opened where
  | assign (word : Leaf .letWord) (name : Leaf .name) (sign : Leaf .equals)
  | print (word : Leaf .printWord)
  | return (word : Leaf .returnWord)
  | fail (word : Leaf .failWord)

namespace Opened

def tokens : Opened → List Token
  | .assign word name sign => [word.token, name.token, sign.token]
  | .print word => [word.token]
  | .return word => [word.token]
  | .fail word => [word.token]

def head : Opened → Head
  | .assign word name _ => .assign (String.ofList name.text) word.line
  | .print word => .print word.line
  | .return word => .return word.line
  | .fail word => .fail word.line

def complete (value : ExprTree .expr) : Opened → StatementTree
  | .assign word name sign => .assign word name sign value
  | .print word => .print word value
  | .return word => .return word value
  | .fail word => .fail word value

@[simp] theorem tokens_complete (opened : Opened) (value : ExprTree .expr) :
    (opened.complete value).tokens = opened.tokens ++ value.tokens := by
  cases opened <;> rfl

@[simp] theorem statement_complete (opened : Opened) (value : ExprTree .expr) :
    (opened.complete value).statement = opened.head.complete value.expr := by
  cases opened <;> rfl

end Opened

abbrev Waiting := Option (ExprTree .expr × Leaf .plus)

namespace Waiting

def tokens : Waiting → List Token
  | none => []
  | some (left, plus) => left.tokens ++ [plus.token]

def pending : Waiting → Pending
  | none => none
  | some (left, _) => some left.expr

def complete (right : ExprTree .atom) : Waiting → ExprTree .expr
  | none => .operand right
  | some (left, plus) => .add left plus right

@[simp] theorem tokens_complete (waiting : Waiting) (right : ExprTree .atom) :
    (waiting.complete right).tokens = waiting.tokens ++ right.tokens := by
  rcases waiting with _ | ⟨left, plus⟩
  · rfl
  · simp [complete, tokens, ExprTree.tokens]

@[simp] theorem expr_complete (waiting : Waiting) (right : ExprTree .atom) :
    (waiting.complete right).expr = waiting.pending.complete right.expr := by
  rcases waiting with _ | ⟨left, plus⟩ <;> rfl

@[simp] theorem pending_none : pending none = none := rfl

end Waiting

/-- What there is around an expression: the statement, and the open parentheses with what waits
before each of them, the innermost one first. -/
structure Around where
  opened : Opened
  outside : List (Waiting × Leaf .opening)

namespace Around

def outsideTokens : List (Waiting × Leaf .opening) → List Token
  | [] => []
  | (waiting, opening) :: outside => outsideTokens outside ++ waiting.tokens ++ [opening.token]

def tokens (around : Around) : List Token :=
  around.opened.tokens ++ outsideTokens around.outside

def context (around : Around) : Context :=
  ⟨around.opened.head, around.outside.map fun level => level.1.pending⟩

@[simp] theorem context_nil (opened : Opened) :
    (⟨opened, []⟩ : Around).context = ⟨opened.head, []⟩ := rfl

end Around

namespace Progress

inductive State where
  | start
  | target (word : Leaf .letWord)
  | equals (word : Leaf .letWord) (name : Leaf .name)
  | operand (around : Around) (waiting : Waiting)
  | path (inside : Option (Around × Waiting)) (safe : Bool) (word : Leaf (callWord safe))
  | value (around : Around) (sum : ExprTree .expr)
  | called (call : CallTree)

namespace State

def tokens : State → List Token
  | .start => []
  | .target word => [word.token]
  | .equals word name => [word.token, name.token]
  | .operand around waiting => around.tokens ++ waiting.tokens
  | .path none _ word => [word.token]
  | .path (some (around, waiting)) _ word => around.tokens ++ waiting.tokens ++ [word.token]
  | .value around sum => around.tokens ++ sum.tokens
  | .called call => call.tokens

def forget : State → Reader.State
  | .start => .start
  | .target word => .target word.line
  | .equals word name => .equals (String.ofList name.text) word.line
  | .operand around waiting => .operand around.context waiting.pending
  | .path none safe word => .path none safe word.line
  | .path (some (around, waiting)) safe word =>
    .path (some (around.context, waiting.pending)) safe word.line
  | .value around sum => .value around.context sum.expr
  | .called call => .called call.request

def ended? : State → Option (List StatementTree)
  | .start => some []
  | .value ⟨opened, []⟩ sum => some [opened.complete sum]
  | .called call => some [.call call]
  | _ => none

def begun? : Token → Option State
  | ⟨.letWord, text, line⟩ => some (.target ⟨text, line⟩)
  | ⟨.printWord, text, line⟩ => some (.operand ⟨.print ⟨text, line⟩, []⟩ none)
  | ⟨.returnWord, text, line⟩ => some (.operand ⟨.return ⟨text, line⟩, []⟩ none)
  | ⟨.failWord, text, line⟩ => some (.operand ⟨.fail ⟨text, line⟩, []⟩ none)
  | ⟨.loadWord, text, line⟩ => some (.path none false ⟨text, line⟩)
  | ⟨.requireWord, text, line⟩ => some (.path none true ⟨text, line⟩)
  | _ => none

def leaf? : Token → Option (ExprTree .atom)
  | ⟨.number, text, line⟩ => some (.number ⟨text, line⟩)
  | ⟨.string, text, line⟩ => some (.string ⟨text, line⟩)
  | ⟨.trueWord, text, line⟩ => some (.true ⟨text, line⟩)
  | ⟨.falseWord, text, line⟩ => some (.false ⟨text, line⟩)
  | ⟨.nilWord, text, line⟩ => some (.nil ⟨text, line⟩)
  | ⟨.name, text, line⟩ => some (.name ⟨text, line⟩)
  | _ => none

def continued? : State → Token → Option State
  | .target word, ⟨.name, text, line⟩ => some (.equals word ⟨text, line⟩)
  | .equals word name, ⟨.equals, text, line⟩ =>
    some (.operand ⟨.assign word name ⟨text, line⟩, []⟩ none)
  | .operand around waiting, ⟨.opening, text, line⟩ =>
    some (.operand ⟨around.opened, (waiting, ⟨text, line⟩) :: around.outside⟩ none)
  | .operand around waiting, ⟨.loadWord, text, line⟩ =>
    some (.path (some (around, waiting)) false ⟨text, line⟩)
  | .operand around waiting, ⟨.requireWord, text, line⟩ =>
    some (.path (some (around, waiting)) true ⟨text, line⟩)
  | .operand around waiting, token =>
    (leaf? token).map fun leaf => .value around (waiting.complete leaf)
  | .path none safe word, ⟨.string, text, line⟩ => some (.called ⟨safe, word, ⟨text, line⟩⟩)
  | .path (some (around, waiting)) safe word, ⟨.string, text, line⟩ =>
    some (.value around (waiting.complete (.call ⟨safe, word, ⟨text, line⟩⟩)))
  | .value around sum, ⟨.plus, text, line⟩ => some (.operand around (some (sum, ⟨text, line⟩)))
  | .value ⟨opened, (waiting, opening) :: outside⟩ sum, ⟨.closing, text, line⟩ =>
    some (.value ⟨opened, outside⟩ (waiting.complete (.parens opening sum ⟨text, line⟩)))
  | _, _ => none

end State

end Progress

/-- The trees of the complete statements, the last one first, and the state of the open one. -/
structure Progress where
  complete : List StatementTree
  state : Progress.State

namespace Progress

def begin : Progress := ⟨[], .start⟩

def tokens (progress : Progress) : List Token :=
  ScriptTree.tokens progress.complete.reverse ++ progress.state.tokens

def forget (progress : Progress) : Reader :=
  ⟨progress.complete.map StatementTree.statement, progress.state.forget⟩

def step? (progress : Progress) (token : Token) : Option Progress :=
  match progress.state.continued? token with
  | some state => some { progress with state := state }
  | none =>
    match progress.state.ended?, State.begun? token with
    | some ended, some state => some ⟨ended ++ progress.complete, state⟩
    | _, _ => none

def finish? (progress : Progress) : Option ScriptTree :=
  progress.state.ended?.map fun ended => (ended ++ progress.complete).reverse

/-! ### Dropping the trees -/

@[simp] theorem State.forget_leaf? (token : Token) :
    Reader.State.leaf? token = (leaf? token).map ExprTree.expr := by
  obtain ⟨terminal, text, line⟩ := token
  cases terminal <;> rfl

theorem State.forget_continued? (state : State) (token : Token) :
    state.forget.continued? token = (state.continued? token).map forget := by
  obtain ⟨terminal, text, line⟩ := token
  cases state with
  | start => cases terminal <;> rfl
  | target word => cases terminal <;> rfl
  | equals word name => cases terminal <;> rfl
  | operand around waiting =>
      cases terminal with
      | opening =>
          simp [forget, continued?, Reader.State.continued?]
          rfl
      | _ => simp [forget, continued?, Reader.State.continued?, Function.comp_def]
  | path inside safe word =>
      rcases inside with _ | ⟨around, waiting⟩
      · cases terminal <;> rfl
      · cases terminal with
        | string =>
            simp [forget, continued?, Reader.State.continued?, ExprTree.expr]
            rfl
        | _ => rfl
  | value around sum =>
      obtain ⟨opened, _ | ⟨⟨waiting, opening⟩, outside⟩⟩ := around
      · cases terminal <;> rfl
      · cases terminal with
        | closing =>
            simp [forget, continued?, Reader.State.continued?, ExprTree.expr]
            rfl
        | _ => rfl
  | called call => cases terminal <;> rfl

theorem State.forget_ended? (state : State) :
    state.forget.ended? = state.ended?.map fun ended => ended.map StatementTree.statement := by
  cases state with
  | value around sum =>
      obtain ⟨opened, _ | ⟨level, outside⟩⟩ := around
      · simp [forget, ended?, Reader.State.ended?]
      · rfl
  | path inside safe word => rcases inside with _ | ⟨around, waiting⟩ <;> rfl
  | _ => rfl

theorem State.forget_begun? (token : Token) :
    Reader.State.begun? token = (begun? token).map forget := by
  obtain ⟨terminal, text, line⟩ := token
  cases terminal <;> rfl

/-- The reader goes on exactly where the derivation does, and in the same way. -/
theorem step_forget (progress : Progress) (token : Token) :
    progress.forget.step token =
      match progress.step? token with
      | some next => .ok next.forget
      | none => .error progress.forget.state.accepted := by
  simp only [Reader.step, step?, forget, State.forget_continued?, State.forget_ended?,
    State.forget_begun?]
  rcases progress.state.continued? token with _ | state
  · rcases progress.state.ended? with _ | ended
    · rfl
    · rcases State.begun? token with _ | state
      · rfl
      · simp
  · rfl

theorem finish_forget (progress : Progress) :
    progress.forget.finish =
      match progress.finish? with
      | some tree => .ok tree.statements
      | none => .error progress.forget.state.accepted := by
  simp only [Reader.finish, finish?, forget, State.forget_ended?]
  rcases progress.state.ended? with _ | ended
  · rfl
  · simp [ScriptTree.statements]

/-! ### The tokens so far -/

theorem State.tokens_leaf? {token : Token} {leaf : ExprTree .atom} (h : leaf? token = some leaf) :
    leaf.tokens = [token] := by
  obtain ⟨terminal, text, line⟩ := token
  cases terminal <;> cases h <;> rfl

theorem State.tokens_continued? {state next : State} {token : Token}
    (h : state.continued? token = some next) : next.tokens = state.tokens ++ [token] := by
  obtain ⟨terminal, text, line⟩ := token
  cases state with
  | start => cases terminal <;> cases h
  | target word => cases terminal <;> cases h; rfl
  | equals word name => cases terminal <;> cases h; rfl
  | operand around waiting =>
      have hoperand (h : ((leaf? ⟨terminal, text, line⟩).map fun leaf =>
          State.value around (waiting.complete leaf)) = some next) :
          next.tokens = (State.operand around waiting).tokens ++ [⟨terminal, text, line⟩] := by
        obtain ⟨leaf, hleaf, rfl⟩ := Option.map_eq_some_iff.mp h
        simp [tokens, tokens_leaf? hleaf]
      cases terminal with
      | opening =>
          cases h
          simp [tokens, Around.tokens, Around.outsideTokens, Waiting.tokens]
      | loadWord =>
          cases h
          rfl
      | requireWord =>
          cases h
          rfl
      | _ => exact hoperand h
  | path inside safe word =>
      rcases inside with _ | ⟨around, waiting⟩
      · cases terminal <;> cases h
        rfl
      · cases terminal <;> cases h
        simp [tokens, ExprTree.tokens, CallTree.tokens]
  | value around sum =>
      obtain ⟨opened, _ | ⟨⟨waiting, opening⟩, outside⟩⟩ := around
      · cases terminal <;> cases h
        simp [tokens, Waiting.tokens]
      · cases terminal <;> cases h
        · simp [tokens, Waiting.tokens]
        · simp [tokens, Around.tokens, Around.outsideTokens, ExprTree.tokens]
  | called call => cases terminal <;> cases h

theorem State.tokens_ended? {state : State} {ended : List StatementTree}
    (h : state.ended? = some ended) : ScriptTree.tokens ended.reverse = state.tokens := by
  cases state with
  | start =>
      cases h
      rfl
  | value around sum =>
      obtain ⟨opened, _ | ⟨level, outside⟩⟩ := around
      · cases h
        simp [ScriptTree.tokens, tokens, Around.tokens, Around.outsideTokens]
      · cases h
  | called call =>
      cases h
      simp [ScriptTree.tokens, tokens, StatementTree.tokens]
  | path inside safe word => rcases inside with _ | ⟨around, waiting⟩ <;> cases h
  | _ => cases h

theorem State.tokens_begun? {state : State} {token : Token} (h : begun? token = some state) :
    state.tokens = [token] := by
  obtain ⟨terminal, text, line⟩ := token
  cases terminal <;> cases h <;> rfl

theorem tokens_finish? {progress : Progress} {tree : ScriptTree}
    (h : progress.finish? = some tree) : tree.tokens = progress.tokens := by
  obtain ⟨ended, hended, rfl⟩ := Option.map_eq_some_iff.mp h
  rw [List.reverse_append, ScriptTree.tokens_append, State.tokens_ended? hended]
  rfl

theorem tokens_step? {progress next : Progress} {token : Token}
    (h : progress.step? token = some next) : next.tokens = progress.tokens ++ [token] := by
  unfold step? at h
  split at h
  · rename_i state hstate
    cases h
    simp [tokens, State.tokens_continued? hstate]
  · split at h
    · rename_i ended state hended hbegun
      cases h
      simp only [tokens, List.reverse_append, ScriptTree.tokens_append, State.tokens_ended? hended,
        State.tokens_begun? hbegun]
    · cases h

/-! ### Reading the tokens of a tree -/

def stepAll? (progress : Progress) : List Token → Option Progress
  | [] => some progress
  | token :: rest => (progress.step? token).bind fun next => next.stepAll? rest

theorem stepAll?_cons {progress next : Progress} {token : Token}
    (h : progress.step? token = some next) (rest : List Token) :
    progress.stepAll? (token :: rest) = next.stepAll? rest := by
  simp only [stepAll?, h, Option.bind_some]

theorem stepAll?_append (progress : Progress) (earlier later : List Token) :
    progress.stepAll? (earlier ++ later) =
      (progress.stepAll? earlier).bind fun next => next.stepAll? later := by
  induction earlier generalizing progress with
  | nil => rfl
  | cons token rest ih =>
      simp only [List.cons_append, stepAll?]
      rcases progress.step? token with _ | next
      · rfl
      · exact ih next

theorem tokens_stepAll? {progress next : Progress} {tokens : List Token}
    (h : progress.stepAll? tokens = some next) : next.tokens = progress.tokens ++ tokens := by
  induction tokens generalizing progress with
  | nil =>
      cases h
      simp
  | cons token rest ih =>
      obtain ⟨middle, hstep, hrest⟩ := Option.bind_eq_some_iff.mp h
      rw [ih hrest, tokens_step? hstep, List.append_assoc]
      rfl

/-- Where an operand is due, reading the tokens of a tree completes the tree. An operand is then
added to what waits for it. -/
def ReadsTree : {rank : Rank} → ExprTree rank → Prop
  | .expr, tree => ∀ complete around rest,
    stepAll? ⟨complete, .operand around none⟩ (tree.tokens ++ rest) =
      stepAll? ⟨complete, .value around tree⟩ rest
  | .atom, tree => ∀ complete around waiting rest,
    stepAll? ⟨complete, .operand around waiting⟩ (tree.tokens ++ rest) =
      stepAll? ⟨complete, .value around (waiting.complete tree)⟩ rest

theorem readsTree {rank : Rank} (tree : ExprTree rank) : ReadsTree tree := by
  induction tree with
  | operand atom ih =>
      intro complete around rest
      exact ih complete around none rest
  | add left plus right ihleft ihright =>
      intro complete around rest
      -- once the sum on the left is complete, it waits for the operand on the right
      rw [ExprTree.tokens, List.append_assoc, ihleft, List.cons_append]
      exact ihright complete around (some (left, plus)) rest
  | call tree =>
      intro complete around waiting rest
      obtain ⟨_ | _, word, path⟩ := tree <;> rfl
  | parens opening inside closing ih =>
      intro complete around waiting rest
      have hinside := ih complete ⟨around.opened, (waiting, opening) :: around.outside⟩
        (closing.token :: rest)
      rw [ExprTree.tokens, List.cons_append, List.append_assoc]
      exact hinside
  | _ =>
      intro complete around waiting rest
      rfl

/-- A word that begins a statement does not go on with one that may end. -/
theorem State.continued?_of_ended {state next : State} {ended : List StatementTree}
    {token : Token} (hended : state.ended? = some ended) (hbegun : begun? token = some next) :
    state.continued? token = none := by
  obtain ⟨terminal, text, line⟩ := token
  cases state with
  | start => rfl
  | value around sum =>
      obtain ⟨opened, _ | ⟨level, outside⟩⟩ := around
      · cases terminal <;> first | rfl | cases hbegun
      · cases hended
  | called call => rfl
  | path inside safe word => rcases inside with _ | ⟨around, waiting⟩ <;> cases hended
  | _ => cases hended

theorem step?_begun {progress : Progress} {done : ScriptTree}
    (h : progress.finish? = some done) {token : Token} {state : State}
    (hbegun : State.begun? token = some state) :
    progress.step? token = some ⟨done.reverse, state⟩ := by
  obtain ⟨ended, hended, rfl⟩ := Option.map_eq_some_iff.mp h
  simp only [step?, State.continued?_of_ended hended hbegun, hended, hbegun, List.reverse_reverse]

/-- Where a statement may begin, reading the tokens of a statement completes the statement. -/
theorem exists_stepAll?_statement {progress : Progress} {done : ScriptTree}
    (h : progress.finish? = some done) (statement : StatementTree) :
    ∃ next, progress.stepAll? statement.tokens = some next ∧
      next.finish? = some (done ++ [statement]) := by
  have hvalue (opened : Opened) (value : ExprTree .expr) :
      ∃ next, stepAll? ⟨done.reverse, .operand ⟨opened, []⟩ none⟩ value.tokens = some next ∧
        next.finish? = some (done ++ [opened.complete value]) := by
    refine ⟨⟨done.reverse, .value ⟨opened, []⟩ value⟩, ?_, ?_⟩
    · have hread := readsTree value done.reverse ⟨opened, []⟩ []
      rwa [List.append_nil] at hread
    · simp [finish?, State.ended?]
  cases statement with
  | assign word name sign value =>
      rw [StatementTree.tokens, stepAll?_cons (step?_begun h rfl)]
      exact hvalue (.assign word name sign) value
  | print word value =>
      rw [StatementTree.tokens, stepAll?_cons (step?_begun h rfl)]
      exact hvalue (.print word) value
  | «return» word value =>
      rw [StatementTree.tokens, stepAll?_cons (step?_begun h rfl)]
      exact hvalue (.return word) value
  | fail word value =>
      rw [StatementTree.tokens, stepAll?_cons (step?_begun h rfl)]
      exact hvalue (.fail word) value
  | call tree =>
      refine ⟨⟨done.reverse, .called tree⟩, ?_, by simp [finish?, State.ended?]⟩
      obtain ⟨_ | _, word, path⟩ := tree
      · rw [StatementTree.tokens, CallTree.tokens, stepAll?_cons (step?_begun h rfl)]
        rfl
      · rw [StatementTree.tokens, CallTree.tokens, stepAll?_cons (step?_begun h rfl)]
        rfl

/-- Reading the tokens of more statements completes them all. -/
theorem exists_stepAll?_script {progress : Progress} {done : ScriptTree}
    (h : progress.finish? = some done) (tree : ScriptTree) :
    ∃ next, progress.stepAll? tree.tokens = some next ∧ next.finish? = some (done ++ tree) := by
  induction tree generalizing progress done with
  | nil => exact ⟨progress, rfl, by rw [h, List.append_nil]⟩
  | cons statement rest ih =>
      obtain ⟨middle, hmiddle, hdone⟩ := exists_stepAll?_statement h statement
      obtain ⟨next, hnext, hfinish⟩ := ih hdone
      refine ⟨next, ?_, by simpa using hfinish⟩
      show progress.stepAll? (statement.tokens ++ ScriptTree.tokens rest) = some next
      rw [stepAll?_append, hmiddle]
      exact hnext

theorem exists_stepAll?_tokens (tree : ScriptTree) :
    ∃ next, begin.stepAll? tree.tokens = some next ∧ next.finish? = some tree :=
  @exists_stepAll?_script begin [] rfl tree

end Progress

/-- The tokens of a script determine its tree. -/
theorem ScriptTree.tokens_injective {tree other : ScriptTree} (h : tree.tokens = other.tokens) :
    tree = other := by
  obtain ⟨next, hnext, hfinish⟩ := Progress.exists_stepAll?_tokens tree
  obtain ⟨next', hnext', hfinish'⟩ := Progress.exists_stepAll?_tokens other
  rw [h, hnext'] at hnext
  cases hnext
  exact Option.some.inj (hfinish.symm.trans hfinish')

namespace Progress

/-! ### What may come next -/

/-- Tokens of a line that bring what is open to an end. -/
def fillers (line : Nat) : List Token :=
  [⟨.name, ['x'], line⟩, ⟨.equals, ['='], line⟩, ⟨.nilWord, "nil".toList, line⟩,
    ⟨.string, ['\x22', '\x22'], line⟩, ⟨.closing, [')'], line⟩]

/-- Every derivation that is under way can be brought to an end, on any line. -/
theorem exists_completion (progress : Progress) (line : Nat) :
    ∃ after next tree, progress.stepAll? after = some next ∧ next.finish? = some tree ∧
      after ⊆ fillers line := by
  obtain ⟨complete, state⟩ := progress
  have hcons {token : Token} {after : List Token} (htoken : token ∈ fillers line)
      (hafter : after ⊆ fillers line) : token :: after ⊆ fillers line :=
    List.cons_subset.mpr ⟨htoken, hafter⟩
  -- behind a value, what is left to do is to close the open parentheses
  have hvalue (outside : List (Waiting × Leaf .opening)) (opened : Opened)
      (sum : ExprTree .expr) :
      ∃ after next tree, stepAll? ⟨complete, .value ⟨opened, outside⟩ sum⟩ after = some next ∧
        next.finish? = some tree ∧ after ⊆ fillers line := by
    induction outside generalizing sum with
    | nil => exact ⟨[], _, _, rfl, rfl, List.nil_subset _⟩
    | cons level outside ih =>
        obtain ⟨waiting, opening⟩ := level
        obtain ⟨after, next, tree, hnext, hfinish, hafter⟩ :=
          ih (waiting.complete (.parens opening sum ⟨[')'], line⟩))
        exact ⟨⟨.closing, [')'], line⟩ :: after, next, tree, hnext, hfinish,
          hcons (by simp [fillers]) hafter⟩
  -- `nil` will do for an operand
  have hoperand (around : Around) (waiting : Waiting) :
      ∃ after next tree, stepAll? ⟨complete, .operand around waiting⟩ after = some next ∧
        next.finish? = some tree ∧ after ⊆ fillers line := by
    obtain ⟨after, next, tree, hnext, hfinish, hafter⟩ :=
      hvalue around.outside around.opened (waiting.complete (.nil ⟨"nil".toList, line⟩))
    exact ⟨⟨.nilWord, "nil".toList, line⟩ :: after, next, tree, hnext, hfinish,
      hcons (by simp [fillers]) hafter⟩
  have hequals (word : Leaf .letWord) (name : Leaf .name) :
      ∃ after next tree, stepAll? ⟨complete, .equals word name⟩ after = some next ∧
        next.finish? = some tree ∧ after ⊆ fillers line := by
    obtain ⟨after, next, tree, hnext, hfinish, hafter⟩ :=
      hoperand ⟨.assign word name ⟨['='], line⟩, []⟩ none
    exact ⟨⟨.equals, ['='], line⟩ :: after, next, tree, hnext, hfinish,
      hcons (by simp [fillers]) hafter⟩
  cases state with
  | start => exact ⟨[], _, _, rfl, rfl, List.nil_subset _⟩
  | target word =>
      obtain ⟨after, next, tree, hnext, hfinish, hafter⟩ := hequals word ⟨['x'], line⟩
      exact ⟨⟨.name, ['x'], line⟩ :: after, next, tree, hnext, hfinish,
        hcons (by simp [fillers]) hafter⟩
  | equals word name => exact hequals word name
  | operand around waiting => exact hoperand around waiting
  | path inside safe word =>
      have hstring : ⟨.string, ['\x22', '\x22'], line⟩ ∈ fillers line := by simp [fillers]
      rcases inside with _ | ⟨around, waiting⟩
      · exact ⟨[⟨.string, ['\x22', '\x22'], line⟩], _, _, rfl, rfl,
          hcons hstring (List.nil_subset _)⟩
      · obtain ⟨after, next, tree, hnext, hfinish, hafter⟩ := hvalue around.outside around.opened
          (waiting.complete (.call ⟨safe, word, ⟨['\x22', '\x22'], line⟩⟩))
        exact ⟨⟨.string, ['\x22', '\x22'], line⟩ :: after, next, tree, hnext, hfinish,
          hcons hstring hafter⟩
  | value around sum => exact hvalue around.outside around.opened sum
  | called call => exact ⟨[], _, _, rfl, rfl, List.nil_subset _⟩

/-- After tokens that begin a script, the terminals that some script goes on with are those of the
tokens that can be taken in. -/
theorem viable_iff {before : List Token} {progress : Progress}
    (h : begin.stepAll? before = some progress) (terminal : Terminal) :
    Viable before terminal ↔
      ∃ token next, token.terminal = terminal ∧ progress.step? token = some next := by
  constructor
  · rintro ⟨token, after, tree, hterminal, htokens⟩
    obtain ⟨final, hfinal, -⟩ := exists_stepAll?_tokens tree
    rw [htokens, stepAll?_append, h, Option.bind_some] at hfinal
    obtain ⟨next, hstep, -⟩ := Option.bind_eq_some_iff.mp hfinal
    exact ⟨token, next, hterminal, hstep⟩
  · rintro ⟨token, next, hterminal, hstep⟩
    obtain ⟨after, final, tree, hfinal, hfinish, -⟩ := next.exists_completion token.line
    refine ⟨token, after, tree, hterminal, ?_⟩
    have hbefore : progress.tokens = before := tokens_stepAll? h
    rw [tokens_finish? hfinish, tokens_stepAll? hfinal, tokens_step? hstep, hbefore,
      List.append_assoc]
    rfl

end Progress

/-! ### The reader -/

/-- A state of the reader takes a token in exactly if it names the token's terminal as accepted. -/
theorem step_ok_iff (reader : Reader) (token : Token) :
    (∃ next, reader.step token = .ok next) ↔
      token.terminal ∈ reader.state.accepted ∧ token.terminal ≠ .endOfFile := by
  obtain ⟨complete, state⟩ := reader
  obtain ⟨terminal, text, line⟩ := token
  -- both sides compute once the state and the terminal are known
  have hcompute (result : Except (List Terminal) Reader) (allowed : Bool)
      (h : result.toBool = allowed) : (∃ next, result = .ok next) ↔ allowed = true := by
    subst h
    cases result <;> simp [Except.toBool]
  have hmem (allowed : List Terminal) : (terminal ∈ allowed ∧ terminal ≠ .endOfFile) ↔
      (allowed.contains terminal && terminal != .endOfFile) = true := by
    simp
  rw [hmem]
  apply hcompute
  cases state with
  | path inside safe word =>
      rcases inside with _ | ⟨context, pending⟩ <;> cases terminal <;> rfl
  | value context sum =>
      obtain ⟨head, _ | ⟨pending, outside⟩⟩ := context <;> cases terminal <;> rfl
  | _ => cases terminal <;> rfl

end ScriptLoader.Script.Grammar
