import ScriptLoader.Proofs.Acceptance
import ScriptLoader.Proofs.Failures
import ScriptLoader.Proofs.Scanning
import ScriptLoader.Proofs.Termination

/-!
Sums. However many operands a sum has, and whatever these are, it is evaluated as a fold from the
left: one operand after the other, each added to the sum of those before it, until an operand or an
addition fails. `AddsUp` is that fold with a record of every operand that is evaluated; the record
tells which operands these are, and that nothing else happens.
-/

namespace ScriptLoader.Script

namespace Grammar

/-! ### Sums in texts -/

def sumTree (first : ExprTree .atom) (others : List (Leaf .plus × ExprTree .atom)) :
    ExprTree .expr :=
  others.foldl (fun left summand => .add left summand.1 summand.2) (.operand first)

/-- Every expression is a sum of one operand or more. -/
theorem exists_sumTree : (tree : ExprTree .expr) → ∃ first others, tree = sumTree first others
  | .operand atom => ⟨atom, [], rfl⟩
  | .add left plus right => by
      obtain ⟨first, others, rfl⟩ := exists_sumTree left
      exact ⟨first, others ++ [(plus, right)], by simp [sumTree]⟩

/-- The expressions in a tree, those in parentheses included. -/
def ExprTree.sums {rank : Rank} : ExprTree rank → List (ExprTree .expr)
  | .operand atom => .operand atom :: atom.sums
  | .add left plus right => .add left plus right :: (left.sums ++ right.sums)
  | .parens _ inside _ => inside.sums
  | .number _ | .string _ | .true _ | .false _ | .nil _ | .name _ | .call _ => []

def StatementTree.sums : StatementTree → List (ExprTree .expr)
  | .assign _ _ _ value | .print _ value | .return _ value | .fail _ value => value.sums
  | .call _ => []

def ScriptTree.sums (tree : ScriptTree) : List (ExprTree .expr) :=
  tree.flatMap StatementTree.sums

def lineOfFirst? (tokens : List Token) : Option Nat :=
  (tokens.find? fun token => token.terminal != .opening).map Token.line

/-- Parentheses in front of an expression do not count for its line. -/
theorem ExprTree.lineOfFirst?_tokens {rank : Rank} (tree : ExprTree rank) (rest : List Token) :
    lineOfFirst? (tree.tokens ++ rest) = some tree.expr.line := by
  induction tree generalizing rest with
  | operand atom ih => exact ih rest
  | add left plus right ihleft _ =>
      rw [tokens, List.append_assoc]
      exact ihleft _
  | parens opening inside closing ih =>
      have hskip : lineOfFirst? ((parens opening inside closing).tokens ++ rest) =
          lineOfFirst? (inside.tokens ++ ([closing.token] ++ rest)) := by
        rw [tokens, List.cons_append, List.append_assoc]
        rfl
      rw [hskip]
      exact ih _
  | call tree =>
      obtain ⟨_ | _, word, path⟩ := tree <;> rfl
  | _ => rfl

end Grammar

/-! ### Their literals decoded -/

theorem exists_of_map_eq_ok {ε α β : Type} {result : Except ε α} {f : α → β} {b : β}
    (h : result.map f = .ok b) : ∃ a, result = .ok a ∧ f a = b := by
  cases result with
  | error e => cases h
  | ok a =>
      cases h
      exact ⟨a, rfl, rfl⟩

theorem decode_add {left right : RawExpr} {expr : Expr Numeral CodePoints}
    (h : (Expr.add left right : RawExpr).decode = .ok expr) :
    ∃ a b, left.decode = .ok a ∧ right.decode = .ok b ∧ expr = .add a b := by
  rw [Expr.decode] at h
  split at h
  · cases h
  · rename_i a hleft
    split at h
    · cases h
    · rename_i b hright
      cases h
      exact ⟨a, b, hleft, hright, rfl⟩

theorem line_of_decode {raw : RawExpr} {expr : Expr Numeral CodePoints}
    (h : raw.decode = .ok expr) : expr.line = raw.line := by
  induction raw generalizing expr with
  | add left right ihleft _ =>
      obtain ⟨a, b, hleft, -, rfl⟩ := decode_add h
      show a.line = left.line
      exact ihleft hleft
  | number value line =>
      obtain ⟨value, -, rfl⟩ := exists_of_map_eq_ok h
      rfl
  | text value line =>
      obtain ⟨value, -, rfl⟩ := exists_of_map_eq_ok h
      rfl
  | call request =>
      obtain ⟨decoded, hrequest, rfl⟩ := exists_of_map_eq_ok h
      obtain ⟨path, -, rfl⟩ := exists_of_map_eq_ok hrequest
      rfl
  | boolean _ _ | nil _ | name _ _ =>
      cases h
      rfl

/-- Operands with plus signs between them. The sum of the first ones is the left operand of each. -/
def Expr.sumOf {ν τ : Type} (first : Expr ν τ) (others : List (Expr ν τ)) : Expr ν τ :=
  others.foldl .add first

namespace Grammar

/-- The operands of a sum in a text are those of the expression that the text stands for. -/
theorem decode_sumTree {first : ExprTree .atom} {others : List (Leaf .plus × ExprTree .atom)}
    {expr : Expr Numeral CodePoints} (h : (sumTree first others).expr.decode = .ok expr) :
    ∃ a operands, first.expr.decode = .ok a ∧
      List.Forall₂ (fun summand operand => summand.2.expr.decode = .ok operand) others operands ∧
      expr = .sumOf a operands := by
  induction others using List.reverseRecOn generalizing expr with
  | nil => exact ⟨expr, [], h, .nil, rfl⟩
  | append_singleton others summand ih =>
      have hadd : sumTree first (others ++ [summand]) =
          .add (sumTree first others) summand.1 summand.2 := by
        simp [sumTree]
      rw [hadd] at h
      obtain ⟨left, operand, hleft, hoperand, rfl⟩ := decode_add h
      obtain ⟨a, operands, hfirst, hothers, rfl⟩ := ih hleft
      refine ⟨a, operands ++ [operand], hfirst, List.rel_append hothers ?_, ?_⟩
      · exact .cons hoperand .nil
      · simp [Expr.sumOf]

/-- The sums of a tree stand for nodes of what the tree stands for. -/
theorem ExprTree.exists_node {rank : Rank} {tree : ExprTree rank} {expr : Expr Numeral CodePoints}
    (h : tree.expr.decode = .ok expr) {sum : ExprTree .expr} (hsum : sum ∈ tree.sums) :
    ∃ node, sum.expr.decode = .ok node ∧ node ∈ expr.nodes := by
  induction tree generalizing expr with
  | operand atom ih =>
      rcases List.mem_cons.mp hsum with rfl | hsum
      · exact ⟨expr, h, expr.self_mem_nodes⟩
      · exact ih h hsum
  | add left plus right ihleft ihright =>
      rcases List.mem_cons.mp hsum with rfl | hsum
      · exact ⟨expr, h, expr.self_mem_nodes⟩
      · obtain ⟨a, b, hleft, hright, rfl⟩ := decode_add h
        rcases List.mem_append.mp hsum with hsum | hsum
        · obtain ⟨node, hnode, hmem⟩ := ihleft hleft hsum
          exact ⟨node, hnode, List.mem_cons_of_mem _ (List.mem_append_left _ hmem)⟩
        · obtain ⟨node, hnode, hmem⟩ := ihright hright hsum
          exact ⟨node, hnode, List.mem_cons_of_mem _ (List.mem_append_right _ hmem)⟩
  | parens opening inside closing ih => exact ih h hsum
  | _ => cases hsum

theorem StatementTree.exists_node {tree : StatementTree} {statement : Statement Numeral CodePoints}
    (h : tree.statement.decode = .ok statement) {sum : ExprTree .expr} (hsum : sum ∈ tree.sums) :
    ∃ node, sum.expr.decode = .ok node ∧ node ∈ statement.nodes := by
  cases tree with
  | call call => cases hsum
  | assign word name sign value | print word value | «return» word value | fail word value =>
      obtain ⟨expr, hvalue, rfl⟩ := exists_of_map_eq_ok h
      exact ExprTree.exists_node hvalue hsum

theorem ScriptTree.exists_node {tree : ScriptTree}
    {statements : List (Statement Numeral CodePoints)}
    (h : Statement.decodeAll tree.statements = .ok statements) {sum : ExprTree .expr}
    (hsum : sum ∈ ScriptTree.sums tree) :
    ∃ node, sum.expr.decode = .ok node ∧ node ∈ statements.flatMap Statement.nodes := by
  induction tree generalizing statements with
  | nil => cases hsum
  | cons first rest ih =>
      rw [ScriptTree.statements, List.map_cons, Statement.decodeAll] at h
      split at h
      · cases h
      · rename_i statement hfirst
        obtain ⟨others, hrest, rfl⟩ := exists_of_map_eq_ok h
        rcases List.mem_append.mp hsum with hsum | hsum
        · obtain ⟨node, hnode, hmem⟩ := StatementTree.exists_node hfirst hsum
          exact ⟨node, hnode, List.mem_append_left _ hmem⟩
        · obtain ⟨node, hnode, hmem⟩ := ih hrest hsum
          exact ⟨node, hnode, List.mem_append_right _ hmem⟩

end Grammar

/-! ### Values that can be added -/

namespace Value

inductive Summable : Value → Value → Prop
  | numbers {m n : Numeral} (h : ¬m.Clash n) : Summable (.number m) (.number n)
  | texts {s t : CodePoints} : Summable (.text s) (.text t)

theorem exists_add_iff {site : Site} {a b : Value} :
    (∃ sum, a.add site b = .ok sum) ↔ a.Summable b := by
  constructor
  · rintro ⟨sum, h⟩
    unfold add at h
    split at h
    · rename_i m n
      refine .numbers fun clash => ?_
      rw [Numeral.add_eq_error_iff.mpr ⟨clash, rfl⟩] at h
      cases h
    · exact .texts
    · cases h
  · rintro (⟨h⟩ | _)
    · rename_i m n
      rcases hsum : m.add n with error | sum
      · exact (h (Numeral.add_eq_error_iff.mp hsum).1).elim
      · exact ⟨.number sum, by rw [add, hsum]; rfl⟩
    · exact ⟨_, rfl⟩

def Alike (a b : Value) : Prop :=
  a.typeName = b.typeName ∧ (a.typeName = "number" ∨ a.typeName = "string")

theorem add_of_not_alike {a b : Value} (h : ¬a.Alike b) (site : Site) :
    a.add site b = .error (.script site (.operandMismatch a.typeName b.typeName)) := by
  cases a <;> cases b <;> first | rfl | exact (h ⟨rfl, by simp [typeName]⟩).elim

end Value

/-! ### The fold -/

open Loader

def addNext (site : Site) (sum : Value) (operand : Expr Numeral CodePoints) : Program Host Value :=
  (operand.evaluate site.file).bind fun value => .done (sum.add site value)

@[simp] theorem Expr.line_sumOf {ν τ : Type} (first : Expr ν τ) (others : List (Expr ν τ)) :
    (sumOf first others).line = first.line := by
  induction others generalizing first with
  | nil => rfl
  | cons operand rest ih => exact ih (.add first operand)

/-- A sum is evaluated as a fold over its operands. -/
theorem Expr.evaluate_sumOf (file : Option String) (first : Expr Numeral CodePoints)
    (others : List (Expr Numeral CodePoints)) :
    (sumOf first others).evaluate file =
      (first.evaluate file).bind fun value =>
        others.foldlM (addNext ⟨file, some first.line⟩) value := by
  induction others generalizing first with
  | nil => exact (Program.bind_done _).symm
  | cons operand rest ih =>
      have hsum : sumOf first (operand :: rest) = sumOf (.add first operand) rest := rfl
      rw [hsum, ih, evaluate, Program.bind_assoc]
      rfl

structure Visit where
  operand : Expr Numeral CodePoints
  before : Loader Host
  outcome : Except Fault Value
  after : Loader Host

def Consecutive (loader : Loader Host) : List Visit → Loader Host → Prop
  | [], after => after = loader
  | visit :: rest, after => visit.before = loader ∧ Consecutive visit.after rest after

/-- The sum with one more value; the first value is a sum by itself. -/
def Value.addTo (site : Site) : Option Value → Value → Except Fault Value
  | none, value => .ok value
  | some sum, value => sum.add site value

/-- Operands are evaluated one after the other, each beginning with what the one before it left, and
added to the sum so far. The visits are those that take place; the last of them gives a fault, or a
value that cannot be added, or the end of the operands is reached. -/
inductive AddsUp (executor : Executor Host) (site : Site) :
    Option Value → List (Expr Numeral CodePoints) → Loader Host → List Visit →
      Except Fault Value → Loader Host → Prop
  | done {sum : Value} {loader : Loader Host} :
      AddsUp executor site (some sum) [] loader [] (.ok sum) loader
  | stop {sum : Option Value} {operand : Expr Numeral CodePoints}
      {rest : List (Expr Numeral CodePoints)} {loader after : Loader Host}
      {given : Except Fault Value} {fault : Fault}
      (visit : Runs executor (operand.evaluate site.file) loader given after)
      (raised : given.bind (Value.addTo site sum) = .error fault) :
      AddsUp executor site sum (operand :: rest) loader [⟨operand, loader, given, after⟩]
        (.error fault) after
  | next {sum : Option Value} {operand : Expr Numeral CodePoints}
      {rest : List (Expr Numeral CodePoints)} {loader middle after : Loader Host}
      {value larger : Value} {visits : List Visit} {outcome : Except Fault Value}
      (visit : Runs executor (operand.evaluate site.file) loader (.ok value) middle)
      (added : Value.addTo site sum value = .ok larger)
      (later : AddsUp executor site (some larger) rest middle visits outcome after) :
      AddsUp executor site sum (operand :: rest) loader
        (⟨operand, loader, .ok value, middle⟩ :: visits) outcome after

section Fold

variable {executor : Executor Host} {site : Site} {sum : Option Value} {file : Option String}
  {first operand : Expr Numeral CodePoints}
  {operands others before later : List (Expr Numeral CodePoints)}
  {loader now next after : Loader Host} {visits : List Visit} {outcome : Except Fault Value}

theorem runs_foldlM_iff {sum : Value} :
    Runs executor (others.foldlM (addNext site) sum) loader outcome after ↔
      ∃ visits, AddsUp executor site (some sum) others loader visits outcome after := by
  induction others generalizing sum loader with
  | nil =>
      rw [List.foldlM_nil]
      constructor
      · intro runs
        obtain ⟨rfl, rfl⟩ := runs_done_iff.mp runs
        exact ⟨[], .done⟩
      · rintro ⟨visits, adds⟩
        cases adds
        exact .done _ _
  | cons operand rest ih =>
      have hcons : (operand :: rest).foldlM (addNext site) sum =
          (operand.evaluate site.file).bind fun value =>
            (Program.done (sum.add site value)).bind fun larger =>
              rest.foldlM (addNext site) larger := by
        rw [List.foldlM_cons, ← Program.bind_assoc]
        rfl
      rw [hcons, runs_bind_iff]
      constructor
      · rintro (⟨value, middle, visit, rest⟩ | ⟨fault, visit, rfl⟩)
        · rcases hadd : sum.add site value with fault | larger
          · rw [hadd] at rest
            obtain ⟨rfl, rfl⟩ := runs_done_iff.mp rest
            exact ⟨_, .stop visit hadd⟩
          · rw [hadd] at rest
            obtain ⟨visits, adds⟩ := ih.mp rest
            exact ⟨_, .next visit hadd adds⟩
        · exact ⟨_, .stop visit rfl⟩
      · rintro ⟨visits, adds⟩
        cases adds with
        | @stop _ _ _ _ _ given fault visit raised =>
            cases given with
            | error error =>
                cases raised
                exact .inr ⟨_, visit, rfl⟩
            | ok value =>
                replace raised : sum.add site value = .error fault := raised
                refine .inl ⟨value, after, visit, ?_⟩
                rw [raised]
                exact .done _ _
        | next visit added later =>
            replace added : sum.add site _ = .ok _ := added
            refine .inl ⟨_, _, visit, ?_⟩
            rw [added]
            exact ih.mpr ⟨_, later⟩

/-- A sum runs as its operands add up. -/
theorem runs_sumOf_iff :
    Runs executor ((Expr.sumOf first others).evaluate file) loader outcome after ↔
      ∃ visits, AddsUp executor ⟨file, some first.line⟩ none (first :: others) loader visits
        outcome after := by
  rw [Expr.evaluate_sumOf, runs_bind_iff]
  constructor
  · rintro (⟨value, middle, visit, rest⟩ | ⟨fault, visit, rfl⟩)
    · obtain ⟨visits, adds⟩ := runs_foldlM_iff.mp rest
      exact ⟨_, .next visit rfl adds⟩
    · exact ⟨_, .stop visit rfl⟩
  · rintro ⟨visits, adds⟩
    cases adds with
    | @stop _ _ _ _ _ given fault visit raised =>
        cases given with
        | error error =>
            cases raised
            exact .inr ⟨_, visit, rfl⟩
        | ok value => cases raised
    | next visit added later =>
        cases added
        exact .inl ⟨_, _, visit, runs_foldlM_iff.mpr ⟨_, later⟩⟩

/-! ### What is evaluated -/

namespace AddsUp

/-- The operands that are evaluated are the first ones, each of them once. -/
theorem operands_prefix (h : AddsUp executor site sum operands loader visits outcome after) :
    visits.map Visit.operand <+: operands := by
  induction h with
  | done => exact List.nil_prefix
  | stop _ _ => exact List.cons_prefix_cons.mpr ⟨rfl, List.nil_prefix⟩
  | next _ _ _ ih => exact List.cons_prefix_cons.mpr ⟨rfl, ih⟩

/-- Each of them is evaluated as it is by itself. -/
theorem runs_of_mem (h : AddsUp executor site sum operands loader visits outcome after) :
    ∀ visit ∈ visits,
      Runs executor (visit.operand.evaluate site.file) visit.before visit.outcome visit.after := by
  induction h with
  | done => exact fun _ hvisit => (List.not_mem_nil hvisit).elim
  | stop visit _ => exact List.forall_mem_singleton.mpr visit
  | next visit _ _ ih => exact List.forall_mem_cons.mpr ⟨visit, ih⟩

/-- Nothing happens between them or behind the last one. -/
theorem consecutive (h : AddsUp executor site sum operands loader visits outcome after) :
    Consecutive loader visits after := by
  induction h with
  | done => rfl
  | stop _ _ => exact ⟨rfl, rfl⟩
  | next _ _ _ ih => exact ⟨rfl, ih⟩

theorem length_of_ok (h : AddsUp executor site sum operands loader visits outcome after)
    {value : Value} (ok : outcome = .ok value) : visits.length = operands.length := by
  induction h with
  | done => rfl
  | stop _ _ => cases ok
  | next _ _ _ ih => exact congrArg (· + 1) (ih ok)

/-- Behind some of the operands, the evaluation goes on with their sum, or it has ended. -/
theorem split (h : AddsUp executor site sum (before ++ later) loader visits outcome after)
    (begun : sum ≠ none ∨ before ≠ []) :
    (∃ value now seen more, AddsUp executor site sum before loader seen (.ok value) now ∧
      AddsUp executor site (some value) later now more outcome after ∧ visits = seen ++ more) ∨
    ∃ fault, AddsUp executor site sum before loader visits (.error fault) after := by
  induction before generalizing sum loader visits with
  | nil =>
      obtain ⟨value, rfl⟩ := Option.ne_none_iff_exists'.mp (begun.resolve_right (· rfl))
      exact .inl ⟨value, loader, [], visits, .done, h, rfl⟩
  | cons operand rest ih =>
      cases h with
      | stop visit raised => exact .inr ⟨_, .stop visit raised⟩
      | next visit added later =>
          obtain ⟨value, now, seen, more, hseen, hmore, rfl⟩ | ⟨fault, hfault⟩ :=
            ih later (.inl (Option.some_ne_none _))
          · exact .inl ⟨value, now, _, more, .next visit added hseen, hmore, rfl⟩
          · exact .inr ⟨fault, .next visit added hfault⟩

/-- An operand is evaluated, beginning with what those before it left, exactly if these have a
sum. -/
theorem visited_iff
    (h : AddsUp executor ⟨file, some first.line⟩ none (first :: (before ++ operand :: later)) loader
      visits outcome after) :
    (∃ visit, visits[before.length + 1]? = some visit ∧ visit.operand = operand ∧
      visit.before = now) ↔
    ∃ value, Runs executor ((Expr.sumOf first before).evaluate file) loader (.ok value) now := by
  rw [← List.cons_append] at h
  obtain ⟨value, last, seen, more, hseen, hmore, rfl⟩ | ⟨fault, hfault⟩ :=
    h.split (.inr (List.cons_ne_nil _ _))
  · have hsum := runs_sumOf_iff.mpr ⟨_, hseen⟩
    have hlength : seen.length = before.length + 1 := hseen.length_of_ok rfl
    have hvisit : ∃ visit, (seen ++ more)[before.length + 1]? = some visit ∧
        visit.operand = operand ∧ visit.before = last := by
      rw [← hlength, List.getElem?_append_right (Nat.le_refl _), Nat.sub_self]
      cases hmore with
      | stop _ _ => exact ⟨_, rfl, rfl, rfl⟩
      | next _ _ _ => exact ⟨_, rfl, rfl, rfl⟩
    obtain ⟨visit, hget, hoperand, hbefore⟩ := hvisit
    constructor
    · rintro ⟨other, hother, -, rfl⟩
      cases hget.symm.trans hother
      exact ⟨value, hbefore ▸ hsum⟩
    · rintro ⟨other, hother⟩
      obtain ⟨-, rfl⟩ := hsum.unique hother
      exact ⟨visit, hget, hoperand, hbefore⟩
  · -- the evaluation ended before
    have hlength := hfault.operands_prefix.length_le
    rw [List.length_map, List.length_cons] at hlength
    constructor
    · rintro ⟨visit, hvisit, -, -⟩
      rw [List.getElem?_eq_none hlength] at hvisit
      cases hvisit
    · rintro ⟨value, hvalue⟩
      cases (hvalue.unique (runs_sumOf_iff.mpr ⟨_, hfault⟩)).1

/-- If all values that are added are of a kind that is closed under addition, then all operands are
evaluated, and the outcome is the sum of their values. -/
theorem eq_foldl {α : Type} {inject : α → Value} {op : α → α → α}
    (closed : ∀ x y, (inject x).add site (inject y) = .ok (inject (op x y))) {x : α} {ys : List α}
    (h : AddsUp executor site (some (inject x)) operands loader visits outcome after)
    (given : visits.map Visit.outcome = ys.map fun y => .ok (inject y)) :
    outcome = .ok (inject (ys.foldl op x)) ∧ visits.length = operands.length := by
  induction operands generalizing x ys loader visits with
  | nil =>
      cases h
      obtain rfl : ys = [] := List.map_eq_nil_iff.mp given.symm
      exact ⟨rfl, rfl⟩
  | cons operand rest ih =>
      cases h with
      | stop _ raised =>
          obtain ⟨y, ys, rfl, hy, -⟩ := List.map_eq_cons_iff.mp given.symm
          subst hy
          cases (closed x y).symm.trans raised
      | next _ added later =>
          obtain ⟨y, ys, rfl, hy, hys⟩ := List.map_eq_cons_iff.mp given.symm
          cases hy
          cases (closed x y).symm.trans added
          obtain ⟨rfl, hlength⟩ := ih later hys.symm
          exact ⟨rfl, congrArg (· + 1) hlength⟩

theorem eq_foldl_of_first {α : Type} (inject : α → Value) (op : α → α → α)
    (closed : ∀ x y, (inject x).add site (inject y) = .ok (inject (op x y))) {ys : List α}
    (h : AddsUp executor site none (first :: others) loader visits outcome after)
    (given : visits.map Visit.outcome = ys.map fun y => .ok (inject y)) :
    ∃ x rest, ys = x :: rest ∧ outcome = .ok (inject (rest.foldl op x)) ∧
      visits.length = others.length + 1 := by
  cases h with
  | stop _ raised =>
      obtain ⟨y, ys, rfl, hy, -⟩ := List.map_eq_cons_iff.mp given.symm
      subst hy
      cases raised
  | next _ added later =>
      obtain ⟨y, ys, rfl, hy, hys⟩ := List.map_eq_cons_iff.mp given.symm
      cases hy
      cases added
      obtain ⟨rfl, hlength⟩ := later.eq_foldl closed hys.symm
      exact ⟨y, ys, rfl, rfl, congrArg (· + 1) hlength⟩

theorem eq_sum_of_ints {ns : List Int}
    (h : AddsUp executor site none (first :: others) loader visits outcome after)
    (given : visits.map Visit.outcome = ns.map fun n => .ok (.number (.int n))) :
    outcome = .ok (.number (.int ns.sum)) ∧ visits.length = others.length + 1 := by
  obtain ⟨n, rest, rfl, rfl, hlength⟩ := h.eq_foldl_of_first (fun n => .number (.int n)) (· + ·)
    (fun m n => rfl) given
  refine ⟨?_, hlength⟩
  rw [List.sum_eq_foldl, List.foldl_cons, Int.zero_add]

theorem eq_concat_of_texts {ts : List CodePoints}
    (h : AddsUp executor site none (first :: others) loader visits outcome after)
    (given : visits.map Visit.outcome = ts.map fun t => .ok (.text t)) :
    outcome = .ok (.text (.concat ts)) ∧ visits.length = others.length + 1 := by
  obtain ⟨t, rest, rfl, rfl, hlength⟩ := h.eq_foldl_of_first .text (· ++ ·) (fun s t => rfl) given
  rw [CodePoints.foldl_append]
  exact ⟨rfl, hlength⟩

end AddsUp

/-! ### Partial sums -/

theorem Expr.sumOf_append {ν τ : Type} (first operand : Expr ν τ) (before later : List (Expr ν τ)) :
    sumOf first (before ++ operand :: later) = sumOf (.add (sumOf first before) operand) later := by
  simp [sumOf]

/-- A longer partial sum has a value if the shorter one and the next operand have values that can be
added. -/
theorem exists_runs_sumOf_concat_iff :
    (∃ value, Runs executor ((Expr.sumOf first (before ++ [operand])).evaluate file) loader
      (.ok value) next) ↔
    ∃ a now b, Runs executor ((Expr.sumOf first before).evaluate file) loader (.ok a) now ∧
      Runs executor (operand.evaluate file) now (.ok b) next ∧ a.Summable b := by
  rw [Expr.sumOf_append]
  constructor
  · rintro ⟨value, runs⟩
    obtain ⟨a, now, b, hfirst, hsecond, hsum⟩ := runs_add_ok_iff.mp runs
    exact ⟨a, now, b, hfirst, hsecond, Value.exists_add_iff.mp ⟨value, hsum⟩⟩
  · rintro ⟨a, now, b, hfirst, hsecond, hsummable⟩
    obtain ⟨value, hsum⟩ := Value.exists_add_iff.mpr hsummable
    exact ⟨value, runs_add_ok_iff.mpr ⟨a, now, b, hfirst, hsecond, hsum⟩⟩

/-- A partial sum that cannot be added to the next operand ends the whole sum. -/
theorem runs_sumOf_of_add_error {a b : Value} {fault : Fault}
    (hfirst : Runs executor ((Expr.sumOf first before).evaluate file) loader (.ok a) now)
    (hsecond : Runs executor (operand.evaluate file) now (.ok b) next)
    (failed : a.add ⟨file, some first.line⟩ b = .error fault) :
    Runs executor ((Expr.sumOf first (before ++ operand :: later)).evaluate file) loader
      (.error fault) next := by
  rw [Expr.sumOf_append, Expr.evaluate_sumOf]
  refine Runs.bind_error (runs_add_error_iff.mpr (.inr ⟨a, now, hfirst, .inr ⟨b, hsecond, ?_⟩⟩))
    rfl _
  simpa using failed

structure LeftToRight (executor : Executor Host) (file : Option String)
    (first : Expr Numeral CodePoints) (others : List (Expr Numeral CodePoints))
    (loader : Loader Host) (visits : List Visit) (outcome : Except Fault Value)
    (after : Loader Host) : Prop where
  /-- The operands that are evaluated are the first ones, in order, each of them once. -/
  order : visits ≠ [] ∧ visits.map Visit.operand <+: first :: others
  evaluated : ∀ visit ∈ visits,
    Runs executor (visit.operand.evaluate file) visit.before visit.outcome visit.after
  /-- Nothing happens besides. -/
  consecutive : Consecutive loader visits after
  /-- An operand is evaluated exactly if the sum of those before it has a value. -/
  visited_iff : ∀ before operand later, others = before ++ operand :: later → ∀ now,
    (∃ visit, visits[before.length + 1]? = some visit ∧ visit.operand = operand ∧
      visit.before = now) ↔
    ∃ value, Runs executor ((Expr.sumOf first before).evaluate file) loader (.ok value) now
  /-- The sum with one more operand has a value exactly if the sum and the operand have values that
  can be added. -/
  value_iff : ∀ before operand later, others = before ++ operand :: later → ∀ next,
    (∃ value, Runs executor ((Expr.sumOf first (before ++ [operand])).evaluate file) loader
      (.ok value) next) ↔
    ∃ a now b, Runs executor ((Expr.sumOf first before).evaluate file) loader (.ok a) now ∧
      Runs executor (operand.evaluate file) now (.ok b) next ∧ a.Summable b
  ints : ∀ ns : List Int, visits.map Visit.outcome = ns.map (fun n => .ok (.number (.int n))) →
    outcome = .ok (.number (.int ns.sum)) ∧ visits.length = others.length + 1
  texts : ∀ ts : List CodePoints, visits.map Visit.outcome = ts.map (fun t => .ok (.text t)) →
    outcome = .ok (.text (.concat ts)) ∧ visits.length = others.length + 1
  /-- Values of different types, or of types that are not added, end the sum. The fault names their
  types and is on the line of the first operand. -/
  mismatch : ∀ before operand later, others = before ++ operand :: later → ∀ a b now next,
    Runs executor ((Expr.sumOf first before).evaluate file) loader (.ok a) now →
    Runs executor (operand.evaluate file) now (.ok b) next → ¬a.Alike b →
    outcome = .error (.script ⟨file, some first.line⟩
      (.operandMismatch a.typeName b.typeName)) ∧ after = next

theorem AddsUp.leftToRight
    (h : AddsUp executor ⟨file, some first.line⟩ none (first :: others) loader visits outcome
      after) : LeftToRight executor file first others loader visits outcome after where
  order := by
    refine ⟨?_, h.operands_prefix⟩
    cases h <;> exact List.cons_ne_nil _ _
  evaluated := h.runs_of_mem
  consecutive := h.consecutive
  visited_iff := by
    rintro before operand later rfl now
    exact h.visited_iff
  value_iff := fun _ _ _ _ _ => exists_runs_sumOf_concat_iff
  ints := fun _ => h.eq_sum_of_ints
  texts := fun _ => h.eq_concat_of_texts
  mismatch := by
    rintro before operand later rfl a b now next hfirst hsecond unlike
    exact (runs_sumOf_iff.mpr ⟨_, h⟩).unique
      (runs_sumOf_of_add_error hfirst hsecond (Value.add_of_not_alike unlike _))

end Fold

theorem exists_runs_evaluate (file : Option String) (expr : Expr Numeral CodePoints)
    (loader : Loader Host) :
    ∃ outcome after, Runs executor (expr.evaluate file) loader outcome after := by
  obtain ⟨outcome, after, bounded⟩ := exists_run readsFiles_executor
    (composable_steady.evaluate file expr) (ncard_pending_lt_depthBound loader)
  exact ⟨outcome, after, runs_of_run bounded⟩

open Grammar

/-- Every sum that occurs in a script, of one operand or more, is evaluated from left to right and
stops at the first fault. The script has a node for it that is the sum of what its operands stand
for; the evaluation of this node is the fold of the operands from the left, and comes to an end. The
line is that of the first token, opening parentheses aside. With any modules and any loader, the
evaluation is a series of visits to the operands, as `LeftToRight` says. -/
theorem sums_evaluated_leftToRight {file : Option String} {s : List Char} {script : Script}
    {tree : ScriptTree} (parsed : parse file s = .ok script)
    (derived : Reads [] 1 s (ScriptTree.tokens tree)) {first : ExprTree .atom}
    {others : List (Leaf .plus × ExprTree .atom)}
    (occurs : sumTree first others ∈ ScriptTree.sums tree) :
    ∃ a operands, first.expr.decode = .ok a ∧
      List.Forall₂ (fun summand operand => summand.2.expr.decode = .ok operand)
        others operands ∧
      .sumOf a operands ∈ script.nodes ∧ lineOfFirst? first.tokens = some a.line ∧
      (Expr.sumOf a operands).evaluate file = ((a.evaluate file).bind fun value =>
        operands.foldlM (addNext ⟨file, some a.line⟩) value) ∧
      (∀ loader, ∃ outcome after,
        Runs executor ((Expr.sumOf a operands).evaluate file) loader outcome after) ∧
      ∀ (modules : Executor Host) (loader : Loader Host) (outcome : Except Fault Value)
        (after : Loader Host),
        Runs modules ((Expr.sumOf a operands).evaluate file) loader outcome after →
          ∃ visits, LeftToRight modules file a operands loader visits outcome after := by
  obtain ⟨-, tokens, hscans, other, rfl, hdecode⟩ := (parse_iff_means _ _ _).mp parsed
  obtain rfl : other = tree := by
    have hscan := (reads_tokens_iff s tree).mp derived
    rw [Scan.ofText, scans_iff.mp hscans, Scan.mk.injEq] at hscan
    exact ScriptTree.tokens_injective hscan.1
  obtain ⟨node, hnode, hmem⟩ := ScriptTree.exists_node hdecode occurs
  obtain ⟨a, operands, hfirst, hothers, rfl⟩ := decode_sumTree hnode
  refine ⟨a, operands, hfirst, hothers, hmem, ?_, a.evaluate_sumOf file operands,
    fun loader => exists_runs_evaluate file _ loader, fun modules loader outcome after runs => ?_⟩
  · have hline := first.lineOfFirst?_tokens []
    rwa [List.append_nil, ← line_of_decode hfirst] at hline
  · obtain ⟨visits, adds⟩ := runs_sumOf_iff.mp runs
    exact ⟨visits, adds.leftToRight⟩

def mixedText : List Char :=
  "print ((\n1 + 2)) + true + load \"m\"".toList

def mixedFirst : ExprTree .atom :=
  .parens ⟨['('], 1⟩ (.operand (.parens ⟨['('], 1⟩
    (.add (.operand (.number ⟨['1'], 2⟩)) ⟨['+'], 2⟩ (.number ⟨['2'], 2⟩)) ⟨[')'], 2⟩)) ⟨[')'], 2⟩

def mixedOthers : List (Leaf .plus × ExprTree .atom) :=
  [(⟨['+'], 2⟩, .true ⟨"true".toList, 2⟩),
    (⟨['+'], 2⟩, .call ⟨Bool.false, ⟨"load".toList, 2⟩, ⟨"\"m\"".toList, 2⟩⟩)]

def mixedTree : ScriptTree := [.print ⟨"print".toList, 1⟩ (sumTree mixedFirst mixedOthers)]

/-- The boolean ends the sum, so the module is not asked for. -/
theorem sums_evaluated_leftToRight_mixed :
    (∃ script, parse (some "/a.il") mixedText = .ok script) ∧
      Reads [] 1 mixedText (ScriptTree.tokens mixedTree) ∧
      sumTree mixedFirst mixedOthers ∈ ScriptTree.sums mixedTree ∧
      ∃ a b visits, LeftToRight executor (some "/a.il") a [b, .call ⟨"m", false, 2⟩] filelessLoader
        visits (.error (.script ⟨some "/a.il", some 2⟩ (.operandMismatch "number" "boolean")))
          filelessLoader ∧
        (∃ visit, visits[1]? = some visit ∧ visit.operand = b) ∧
        ∀ visit, visits[2]? = some visit → visit.operand ≠ .call ⟨"m", false, 2⟩ := by
  have hparse : parse (some "/a.il") mixedText = .ok ⟨some "/a.il", [.print
      (.sumOf (.add (.number (.int 1) 2) (.number (.int 2) 2))
        [.boolean true 2, .call ⟨"m", false, 2⟩]) 1]⟩ := by with_unfolding_all rfl
  have hderived : Reads [] 1 mixedText (ScriptTree.tokens mixedTree) :=
    (reads_tokens_iff _ _).mpr (by decide +kernel)
  have hoccurs : sumTree mixedFirst mixedOthers ∈ ScriptTree.sums mixedTree :=
    List.mem_append_left _ List.mem_cons_self
  obtain ⟨a, operands, hfirst, hothers, -, -, -, -, hvisits⟩ :=
    sums_evaluated_leftToRight hparse hderived hoccurs
  have hthree : mixedFirst.expr.decode =
      .ok (.add (.number (.int 1) 2) (.number (.int 2) 2)) := by with_unfolding_all rfl
  have hload : (ExprTree.call ⟨Bool.false, ⟨"load".toList, 2⟩, ⟨"\"m\"".toList, 2⟩⟩).expr.decode =
      .ok (.call ⟨"m", false, 2⟩) := by with_unfolding_all rfl
  cases hthree.symm.trans hfirst
  obtain _ | ⟨hb, _ | ⟨hc, ⟨⟩⟩⟩ := hothers
  cases hb
  cases hload.symm.trans hc
  -- the sum of the first two operands fails, so it has no value
  have hruns (later : List (Expr Numeral CodePoints)) : Runs executor
      ((Expr.sumOf (.add (.number (.int 1) 2) (.number (.int 2) 2))
        (.boolean true 2 :: later)).evaluate (some "/a.il")) filelessLoader
      (.error (.script ⟨some "/a.il", some 2⟩ (.operandMismatch "number" "boolean")))
      filelessLoader := by
    rw [Expr.evaluate_sumOf]
    exact runs_iff_exists_depth.mpr ⟨0, rfl⟩
  obtain ⟨visits, fold⟩ := hvisits executor filelessLoader _ _ (hruns _)
  refine ⟨⟨_, hparse⟩, hderived, hoccurs, _, _, visits, fold, ?_, fun visit hvisit hcall => ?_⟩
  · obtain ⟨visit, hvisit, hoperand, -⟩ := (fold.visited_iff [] _ _ rfl filelessLoader).mpr
      ⟨.number (.int 3), runs_iff_exists_depth.mpr ⟨0, rfl⟩⟩
    exact ⟨visit, hvisit, hoperand⟩
  · obtain ⟨value, hvalue⟩ :=
      (fold.visited_iff [.boolean true 2] _ _ rfl visit.before).mp ⟨visit, hvisit, hcall, rfl⟩
    cases (hvalue.unique (hruns [])).1

end ScriptLoader.Script
