import ScriptLoader.Proofs.Runs
import ScriptLoader.Script.Evaluation

/-!
How scripts run, construct by construct. A program that goes on with another one ends as that one
does, or with its own fault; from this follows what it means for an expression or a statement to
end in one way or the other. `ComesTo` says that a part of a program is due at a moment of its run.
-/

namespace ScriptLoader

namespace Loader

variable {σ α β γ : Type} {executor : Executor σ} {loader middle now after : Loader σ}
  {fault : Fault}

/-! ### Outcomes -/

@[simp] theorem runs_done_iff {given outcome : Except Fault α} :
    Runs executor (.done given) loader outcome after ↔ outcome = given ∧ after = loader := by
  constructor
  · intro runs
    cases runs
    exact ⟨rfl, rfl⟩
  · rintro ⟨rfl, rfl⟩
    exact .done _ _

theorem Runs.bind {program : Program σ α} {next : α → Program σ β} {result : Except Fault α}
    {outcome : Except Fault β} {a : α} (runs : Runs executor program loader result middle)
    (ok : result = .ok a) (rest : Runs executor (next a) middle outcome after) :
    Runs executor (program.bind next) loader outcome after := by
  induction runs with
  | done result loader =>
      subst ok
      exact rest
  | asked _ ih => exact .asked (ih ok rest)
  | settled verdict _ ih => exact .settled verdict (ih ok rest)
  | module verdict body _ _ ih => exact .module verdict body (ih ok rest)

theorem Runs.bind_error {program : Program σ α} {result : Except Fault α}
    (runs : Runs executor program loader result after) (failed : result = .error fault)
    (next : α → Program σ β) : Runs executor (program.bind next) loader (.error fault) after := by
  induction runs with
  | done result loader =>
      subst failed
      exact .done _ _
  | asked _ ih => exact .asked (ih failed next)
  | settled verdict _ ih => exact .settled verdict (ih failed next)
  | module verdict body _ _ ih => exact .module verdict body (ih failed next)

/-- A program that goes on with another one ends as that one does, or with its own fault. -/
theorem runs_bind_iff {program : Program σ α} {next : α → Program σ β}
    {outcome : Except Fault β} :
    Runs executor (program.bind next) loader outcome after ↔
      (∃ a middle, Runs executor program loader (.ok a) middle ∧
        Runs executor (next a) middle outcome after) ∨
      ∃ fault, Runs executor program loader (.error fault) after ∧ outcome = .error fault := by
  constructor
  · exact Runs.of_bind
  · rintro (⟨a, middle, first, rest⟩ | ⟨fault, failed, rfl⟩)
    · exact first.bind rfl rest
    · exact failed.bind_error rfl next

@[simp] theorem runs_modifyHost_iff {change : σ → σ} {outcome : Except Fault Unit} :
    Runs executor (.modifyHost change) loader outcome after ↔
      outcome = .ok () ∧ after = { loader with host := change loader.host } := by
  constructor
  · intro runs
    cases runs with
    | asked rest =>
        cases rest with
        | asked rest =>
            cases rest
            exact ⟨rfl, rfl⟩
  · rintro ⟨rfl, rfl⟩
    exact .asked (.asked (.done _ _))

/-! ### Parts of a program -/

/-- The program goes on with more behind every moment of its own. -/
theorem Reaches.bind_left {program : Program σ α} {active : List String} {left : Program σ β}
    (reaches : Reaches executor program loader active left now) (top : active = [])
    (next : α → Program σ γ) :
    ∃ same : β = α,
      Reaches executor (program.bind next) loader []
        ((cast (congrArg (Program σ) same) left).bind next) now := by
  induction reaches with
  | here program loader => exact ⟨rfl, .here _ _⟩
  | asked _ ih =>
      obtain ⟨same, reaches⟩ := ih top next
      exact ⟨same, .asked reaches⟩
  | settled verdict _ ih =>
      obtain ⟨same, reaches⟩ := ih top next
      exact ⟨same, .settled verdict reaches⟩
  | inside _ _ _ => exact (List.append_ne_nil_of_right_ne_nil _ (List.cons_ne_nil _ _) top).elim
  | returned verdict body _ ih =>
      obtain ⟨same, reaches⟩ := ih top next
      exact ⟨same, .returned verdict body reaches⟩

/-- What runs from a moment on ends the whole program. -/
theorem Reaches.runs {program : Program σ α} {active : List String} {left : Program σ β}
    {outcome : Except Fault β} (reaches : Reaches executor program loader active left now)
    (top : active = []) (runs : Runs executor left now outcome after) :
    ∃ outcome' : Except Fault α, HEq outcome outcome' ∧
      Runs executor program loader outcome' after := by
  induction reaches with
  | here program loader => exact ⟨outcome, HEq.rfl, runs⟩
  | asked _ ih =>
      obtain ⟨outcome', same, whole⟩ := ih top runs
      exact ⟨outcome', same, .asked whole⟩
  | settled verdict _ ih =>
      obtain ⟨outcome', same, whole⟩ := ih top runs
      exact ⟨outcome', same, .settled verdict whole⟩
  | inside _ _ _ => exact (List.append_ne_nil_of_right_ne_nil _ (List.cons_ne_nil _ _) top).elim
  | returned verdict body _ ih =>
      obtain ⟨outcome', same, whole⟩ := ih top runs
      exact ⟨outcome', same, .module verdict body whole⟩

/-- A part of a program is due at a moment of its run, outside of the modules that it loads. -/
def ComesTo (executor : Executor σ) (program : Program σ α) (loader : Loader σ)
    (part : Program σ β) (now : Loader σ) : Prop :=
  ∃ next : β → Program σ α, Reaches executor program loader [] (part.bind next) now

section Parts

variable {program : Program σ α} {part : Program σ β}

theorem comesTo_refl (program : Program σ α) (loader : Loader σ) :
    ComesTo executor program loader program loader :=
  ⟨fun a => .done (.ok a), by simpa using .here _ _⟩

theorem ComesTo.bind_left (h : ComesTo executor program loader part now)
    (next : α → Program σ γ) : ComesTo executor (program.bind next) loader part now := by
  obtain ⟨rest, reaches⟩ := h
  obtain ⟨same, whole⟩ := reaches.bind_left rfl next
  rw [cast_eq, Program.bind_assoc] at whole
  exact ⟨_, whole⟩

theorem ComesTo.bind_right {first : Program σ γ} {next : γ → Program σ α} {c : γ}
    (runs : Runs executor first loader (.ok c) middle)
    (h : ComesTo executor (next c) middle part now) :
    ComesTo executor (first.bind next) loader part now := by
  obtain ⟨rest, reaches⟩ := h
  exact ⟨rest, .bind runs rfl reaches⟩

/-- A fault of a part is that of the whole program. -/
theorem ComesTo.runs_error (h : ComesTo executor program loader part now)
    (failed : Runs executor part now (.error fault) after) :
    Runs executor program loader (.error fault) after := by
  obtain ⟨next, reaches⟩ := h
  obtain ⟨outcome, same, runs⟩ := reaches.runs rfl (failed.bind_error rfl next)
  cases same
  exact runs

end Parts

end Loader

namespace Script

open Loader

variable {executor : Executor Host} {loader after : Loader Host} {file : Option String}

/-! ### Expressions -/

theorem runs_name_iff {identifier : String} {line : Nat} {outcome : Except Fault Value} :
    Runs executor ((Expr.name identifier line).evaluate file) loader outcome after ↔
      outcome = (match loader.host.value? identifier with
        | some value => .ok value
        | none => .error (.script ⟨file, some line⟩ (.undefinedName identifier))) ∧
        after = loader := by
  have hprogram : Runs executor ((Expr.name identifier line).evaluate file) loader outcome after ↔
      Runs executor (match loader.host.value? identifier with
        | some value => .done (.ok value)
        | none => .fail (.script ⟨file, some line⟩ (.undefinedName identifier)))
          loader outcome after := by
    constructor
    · intro runs
      cases runs with
      | asked rest => exact rest
    · exact fun runs => .asked runs
  rw [hprogram]
  cases loader.host.value? identifier <;> exact runs_done_iff

/-- The ways in which a sum fails: in an operand, or in the addition itself. -/
theorem runs_add_error_iff {left right : Expr Numeral CodePoints} {fault : Fault} :
    Runs executor ((Expr.add left right).evaluate file) loader (.error fault) after ↔
      Runs executor (left.evaluate file) loader (.error fault) after ∨
      ∃ a middle, Runs executor (left.evaluate file) loader (.ok a) middle ∧
        (Runs executor (right.evaluate file) middle (.error fault) after ∨
          ∃ b, Runs executor (right.evaluate file) middle (.ok b) after ∧
            a.add ⟨file, some left.line⟩ b = .error fault) := by
  rw [Expr.evaluate, runs_bind_iff]
  constructor
  · rintro (⟨a, middle, first, rest⟩ | ⟨_, failed, ⟨⟩⟩)
    · refine .inr ⟨a, middle, first, ?_⟩
      obtain ⟨b, last, second, sum⟩ | ⟨_, failed, ⟨⟩⟩ := runs_bind_iff.mp rest
      · obtain ⟨houtcome, rfl⟩ := runs_done_iff.mp sum
        exact .inr ⟨b, second, houtcome.symm⟩
      · exact .inl failed
    · exact .inl failed
  · rintro (failed | ⟨a, middle, first, failed | ⟨b, second, sum⟩⟩)
    · exact .inr ⟨fault, failed, rfl⟩
    · exact .inl ⟨a, middle, first, runs_bind_iff.mpr (.inr ⟨fault, failed, rfl⟩)⟩
    · refine .inl ⟨a, middle, first, runs_bind_iff.mpr (.inl ⟨b, after, second, ?_⟩)⟩
      rw [sum]
      exact .done _ _

theorem runs_add_ok_iff {left right : Expr Numeral CodePoints} {value : Value} :
    Runs executor ((Expr.add left right).evaluate file) loader (.ok value) after ↔
      ∃ a middle b, Runs executor (left.evaluate file) loader (.ok a) middle ∧
        Runs executor (right.evaluate file) middle (.ok b) after ∧
        a.add ⟨file, some left.line⟩ b = .ok value := by
  rw [Expr.evaluate, runs_bind_iff]
  constructor
  · rintro (⟨a, middle, first, rest⟩ | ⟨_, -, ⟨⟩⟩)
    obtain ⟨b, last, second, sum⟩ | ⟨_, -, ⟨⟩⟩ := runs_bind_iff.mp rest
    obtain ⟨houtcome, rfl⟩ := runs_done_iff.mp sum
    exact ⟨a, middle, b, first, second, houtcome.symm⟩
  · rintro ⟨a, middle, b, first, second, sum⟩
    refine .inl ⟨a, middle, first, runs_bind_iff.mpr (.inl ⟨b, after, second, ?_⟩)⟩
    rw [sum]
    exact .done _ _

/-! ### Statements -/

theorem runs_assign_iff {target : String} {value : Expr Numeral CodePoints} {line : Nat} :
    Runs executor ((Statement.assign target value line).perform file) loader (.ok ()) after ↔
      ∃ v middle, Runs executor (value.evaluate file) loader (.ok v) middle ∧
        after = { middle with host := middle.host.define target v } := by
  rw [Statement.perform, runs_bind_iff]
  constructor
  · rintro (⟨v, middle, evaluated, defined⟩ | ⟨_, -, ⟨⟩⟩)
    exact ⟨v, middle, evaluated, (runs_modifyHost_iff.mp defined).2⟩
  · rintro ⟨v, middle, evaluated, rfl⟩
    exact .inl ⟨v, middle, evaluated, by simp⟩

end Script

end ScriptLoader
