import ScriptLoader.Script.Evaluation

/-!
What scripts raise by themselves. A program's own faults are those that it ends with without
having heard of them from a load. Scripts pass the fault of a load as it is; their own faults carry
the file that they are in, or come from outside, and none of them is a fault of the loader.
-/

namespace ScriptLoader

namespace Program

variable {σ α β : Type}

/-- A program whose own faults are of one kind, and which lets the fault of a load pass as it is. -/
def Raises (own : Fault → Prop) : Program σ α → Prop
  | .done (.ok _) => True
  | .done (.error fault) => own fault
  | .load _ _ next =>
    (∀ fault, next (.error fault) = .done (.error fault)) ∧ ∀ value, (next (.ok value)).Raises own
  | .ask _ next => ∀ answer, (next answer).Raises own

variable {own : Fault → Prop}

theorem raises_done {outcome : Except Fault α} (h : ∀ fault, outcome = .error fault → own fault) :
    (.done outcome : Program σ α).Raises own := by
  cases outcome with
  | ok a => trivial
  | error fault => exact h fault rfl

theorem Raises.bind {program : Program σ α} {next : α → Program σ β} (h : program.Raises own)
    (hnext : ∀ a, (next a).Raises own) : (program.bind next).Raises own := by
  induction program with
  | done outcome =>
      cases outcome with
      | ok a => exact hnext a
      | error fault => exact h
  | load safe requested rest ih =>
      refine ⟨fun fault => ?_, fun value => ih _ (h.2 value)⟩
      simp only [h.1 fault, done_error_bind]
  | ask request rest ih => exact fun answer => ih answer (h answer)

theorem Raises.mono {other : Fault → Prop} (h : ∀ fault, own fault → other fault)
    {program : Program σ α} (raises : program.Raises own) : program.Raises other := by
  induction program with
  | done outcome =>
      cases outcome with
      | ok a => trivial
      | error fault => exact h fault raises
  | load safe requested rest ih => exact ⟨raises.1, fun value => ih _ (raises.2 value)⟩
  | ask request rest ih => exact fun answer => ih answer (raises answer)

theorem raises_call (safe : Bool) (requested : String) :
    (call safe requested : Program σ Script.Value).Raises own :=
  ⟨fun _ => rfl, fun _ => trivial⟩

theorem raises_query (request : Request σ) : (query request).Raises own := fun _ => trivial

theorem raises_modifyHost (change : σ → σ) : (modifyHost change).Raises own :=
  fun _ _ => trivial

end Program

/-- The faults that a script can end with by itself: its own, which carry its file, and faults from
outside, among which there is no interrupt. -/
def Fault.OfScript (file : Option String) : Fault → Prop
  | .script site _ => site.file = file
  | .foreign kind _ => kind ≠ .interrupt
  | _ => False

theorem Fault.OfScript.not_isLoaderFault {file : Option String} {fault : Fault}
    (h : fault.OfScript file) : fault.isLoaderFault = false := by
  cases fault with
  | script site report => rfl
  | foreign kind text => rfl
  | _ => exact h.elim

theorem Fault.OfScript.not_isInterrupt {file : Option String} {fault : Fault}
    (h : fault.OfScript file) : fault.isInterrupt = false := by
  cases fault with
  | foreign kind text => cases kind <;> first | rfl | exact (h rfl).elim
  | _ => rfl

namespace Script

variable {file : Option String}

theorem TooLarge.ofScript_fault (error : TooLarge) : error.fault.OfScript file := by
  cases error <;> exact fun h => by cases h

theorem Numeral.ofScript_of_add {m n : Numeral} {fault : Fault}
    (h : (m.add n).mapError TooLarge.fault = .error fault) : fault.OfScript file := by
  rcases hadd : m.add n with error | sum
  · rw [hadd] at h
    cases h
    exact error.ofScript_fault
  · rw [hadd] at h
    cases h

theorem Value.ofScript_of_add {line : Option Int} {left right : Value} {fault : Fault}
    (h : left.add ⟨file, line⟩ right = .error fault) : fault.OfScript file := by
  unfold Value.add at h
  split at h
  · rename_i m n
    rcases hsum : (m.add n).mapError TooLarge.fault with error | sum
    · rw [hsum] at h
      cases h
      exact Numeral.ofScript_of_add hsum
    · rw [hsum] at h
      cases h
  · cases h
  · cases h
    rfl

/-- Only an integer is too long to be written. -/
theorem Numeral.write_eq_error {x : Numeral} {error : TooLarge} (h : x.write = .error error) :
    ∃ n, x = .int n ∧ Number.integerText? n = none ∧ error = .toWrite := by
  rw [Numeral.write.eq_def] at h
  split at h
  · rename_i n
    split at h
    · cases h
    · rename_i hnone
      cases h
      exact ⟨n, rfl, hnone, rfl⟩
  · cases h

theorem Numeral.write_of_long {n : Int} (long : Number.integerText? n = none) :
    (Numeral.int n).write = .error .toWrite := by
  rw [Numeral.write.eq_def]
  split
  · rename_i heq
    cases heq
    split
    · rename_i htext
      cases long.symm.trans htext
    · rfl
  · rename_i heq
    cases heq

theorem Value.shown_eq_error {value : Value} {fault : Fault} (h : value.shown = .error fault) :
    ∃ n, value = .number (.int n) ∧ Number.integerText? n = none ∧
      fault = TooLarge.toWrite.fault := by
  cases value with
  | number x =>
      rcases hwrite : x.write with error | line
      · obtain ⟨n, rfl, long, rfl⟩ := Numeral.write_eq_error hwrite
        rw [shown, write, hwrite] at h
        exact ⟨n, rfl, long, (Except.error.inj h).symm⟩
      · rw [shown, write, hwrite] at h
        cases h
  | _ => cases h

theorem Value.ofScript_of_shown {value : Value} {fault : Fault}
    (h : value.shown = .error fault) : fault.OfScript file := by
  obtain ⟨n, -, -, rfl⟩ := Value.shown_eq_error h
  exact TooLarge.toWrite.ofScript_fault

theorem Value.shown_of_long {n : Int} (long : Number.integerText? n = none) :
    (Value.number (.int n)).shown = .error TooLarge.toWrite.fault := by
  rw [shown, write, Numeral.write_of_long long]
  rfl

/-- What is shown of a value that is no text is a string. -/
theorem Value.eq_text_or_string_of_shown {value : Value} {text : CodePoints}
    (h : value.shown = .ok text) : value = .text text ∨ ∃ line : String, text = ↑line := by
  cases value with
  | text s =>
      cases h
      exact .inl rfl
  | number x =>
      rcases hwrite : x.write with error | line
      · rw [shown, write, hwrite] at h
        cases h
      · rw [shown, write, hwrite] at h
        exact .inr ⟨line, (Except.ok.inj h).symm⟩
  | nil => exact .inr ⟨"nil", (Except.ok.inj h).symm⟩
  | skipped => exact .inr ⟨"skipped", (Except.ok.inj h).symm⟩
  | boolean b => exact .inr ⟨if b then "true" else "false", (Except.ok.inj h).symm⟩

theorem outputLine_of_error {text : CodePoints} {failure : Unwritable}
    (h : text.write = .error failure) : outputLine text = .error (unwritable failure) := by
  rw [outputLine, h]
  rfl

@[simp] theorem outputLine_ofString (line : String) : outputLine line = .ok line := by
  rw [outputLine, CodePoints.write_ofString]
  rfl

theorem outputLine_eq_error_iff {text : CodePoints} {fault : Fault} :
    outputLine text = .error fault ↔
      ∃ failure, text.write = .error failure ∧ fault = unwritable failure := by
  rcases hwrite : text.write with failure | line
  · simp [outputLine_of_error hwrite, eq_comm]
  · simp [CodePoints.write_eq_ok_iff.mp hwrite]

theorem ofScript_of_outputLine {text : CodePoints} {fault : Fault}
    (h : outputLine text = .error fault) : fault.OfScript file := by
  obtain ⟨failure, -, rfl⟩ := outputLine_eq_error_iff.mp h
  exact fun h => by cases h

theorem Expr.raises_evaluate (file : Option String) (expr : Expr Numeral CodePoints) :
    (expr.evaluate file).Raises (Fault.OfScript file) := by
  induction expr with
  | name identifier line =>
      refine (Program.raises_query _).bind fun host => ?_
      cases host.value? identifier with
      | some value => trivial
      | none => exact rfl
  | call request => exact Program.raises_call _ _
  | add left right hleft hright =>
      refine hleft.bind fun a => hright.bind fun b => ?_
      exact Program.raises_done fun fault h => Value.ofScript_of_add h
  | number _ _ | text _ _ | boolean _ _ | nil _ => trivial

theorem Statement.raises_perform (file : Option String) (statement : Statement Numeral CodePoints) :
    (statement.perform file).Raises (Fault.OfScript file) := by
  cases statement with
  | assign target value line =>
      exact (value.raises_evaluate file).bind fun v => Program.raises_modifyHost _
  | print value line =>
      refine (value.raises_evaluate file).bind fun v => ?_
      refine (Program.raises_done fun fault h => Value.ofScript_of_shown h).bind fun text => ?_
      refine (Program.raises_done fun fault h => ofScript_of_outputLine h).bind fun line => ?_
      exact Program.raises_modifyHost _
  | «return» value line => trivial
  | fail value line =>
      refine (value.raises_evaluate file).bind fun v => ?_
      refine (Program.raises_done fun fault h => Value.ofScript_of_shown h).bind fun message => ?_
      exact rfl
  | call request => exact (Program.raises_call _ _).bind fun _ => trivial

theorem raises_runStatements (file : Option String)
    (statements : List (Statement Numeral CodePoints)) :
    (runStatements file statements).Raises (Fault.OfScript file) := by
  induction statements with
  | nil => trivial
  | cons statement rest ih =>
      cases statement with
      | «return» value line => exact value.raises_evaluate file
      | _ => exact (Statement.raises_perform file _).bind fun _ => ih

/-- A text that is no script gives a fault that carries the file, or one from outside. -/
theorem ofScript_of_parse {text : List Char} {fault : Fault}
    (h : parse file text = .error fault) : fault.OfScript file := by
  unfold parse at h
  split at h
  · rename_i error _
    cases h
    cases error with
    | malformed error => rfl
    | tooManyDigits error => exact fun h => by cases h
  · cases h

theorem file_of_parse {text : List Char} {script : Script}
    (h : parse file text = .ok script) : script.file = file := by
  unfold parse at h
  split at h
  · cases h
  · cases h
    rfl

theorem ofScript_of_ofBytes {path : String} {bytes : ByteArray} {fault : Fault}
    (h : ofBytes path bytes = .error fault) : fault.OfScript (some path) := by
  unfold ofBytes at h
  split at h
  · cases h
    exact fun h => by cases h
  · exact ofScript_of_parse h

theorem file_of_ofBytes {path : String} {bytes : ByteArray} {script : Script}
    (h : ofBytes path bytes = .ok script) : script.file = some path := by
  unfold ofBytes at h
  split at h
  · cases h
  · exact file_of_parse h

theorem ofScript_unreadable (path : String) (error : AccessError) :
    (Fault.unreadable path error).OfScript file := by
  cases error <;> exact fun h => by cases h

/-- Whatever a script raises by itself, from the reading of its file to its last statement, is its
own or comes from outside. -/
theorem raises_executor (path : String) :
    (executor path).Raises (Fault.OfScript (some path)) := by
  refine (Program.raises_query _).bind fun answer => ?_
  cases answer with
  | error error => exact ofScript_unreadable path error
  | ok bytes =>
      show ((Program.done (ofBytes path bytes)).bind run).Raises _
      rcases hscript : ofBytes path bytes with fault | script
      · exact ofScript_of_ofBytes hscript
      · show (run script).Raises _
        rw [run, file_of_ofBytes hscript]
        exact raises_runStatements _ _

end Script

end ScriptLoader
