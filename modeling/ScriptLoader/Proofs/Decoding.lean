import ScriptLoader.Proofs.Scanning
import ScriptLoader.Proofs.Strings

/-!
The literals of a text that is read. Decoding its statements comes to its literals in the order of
its tokens, in expressions and in calls alike, so it fails with the first token that cannot be
decoded. If this is a string, the fault names it and its line.
-/

namespace ScriptLoader.Script

namespace Unreadable

def reason? {α : Type} : Except Unreadable α → Option Unreadable
  | .ok _ => none
  | .error e => some e

@[simp] theorem reason?_map {α β : Type} (f : α → β) (result : Except Unreadable α) :
    reason? (result.map f) = reason? result := by
  cases result <;> rfl

@[simp] theorem reason?_eq_some_iff {α : Type} {result : Except Unreadable α} {e : Unreadable} :
    reason? result = some e ↔ result = .error e := by
  cases result <;> simp [reason?]

end Unreadable

open Unreadable

/-- Why the literal that a token is cannot be decoded. Tokens that are no literals stand for
themselves. -/
def Token.reason? (token : Token) : Option Unreadable :=
  match token.terminal with
  | .number => Unreadable.reason? (Literal.number token)
  | .string => Unreadable.reason? (Literal.string token)
  | _ => none

def Token.Undecodable (token : Token) : Prop :=
  token.terminal = .string ∧ Literal.decodeString? token.text = none

theorem Token.reason?_of_undecodable {token : Token} (h : token.Undecodable) :
    token.reason? = some (.malformed (.invalidString token.text token.line)) := by
  simp only [reason?, h.1, Literal.string, h.2]
  rfl

theorem Token.undecodable_of_reason? {token : Token} {e : Unreadable}
    (numbers : token.terminal = .number → ∃ value, Literal.decodeNumber token.text = .ok value)
    (h : token.reason? = some e) : token.Undecodable := by
  unfold reason? at h
  split at h
  · rename_i hterminal
    obtain ⟨value, hvalue⟩ := numbers hterminal
    simp only [Literal.number, hvalue] at h
    cases h
  · rename_i hterminal
    refine ⟨hterminal, ?_⟩
    rcases htext : Literal.decodeString? token.text with _ | text
    · rfl
    · simp only [Literal.string, htext] at h
      cases h
  · cases h

namespace Grammar

/-! ### Decoding along a derivation -/

@[simp] theorem Leaf.reason?_string (leaf : Leaf .string) :
    leaf.token.reason? = Unreadable.reason? (Literal.string leaf.token) := rfl

@[simp] theorem Leaf.reason?_number (leaf : Leaf .number) :
    leaf.token.reason? = Unreadable.reason? (Literal.number leaf.token) := rfl

/-- A token that is no literal does not matter. -/
theorem findSome?_reason?_cons {terminal : Terminal} (leaf : Leaf terminal)
    (h : terminal ≠ .number ∧ terminal ≠ .string) (rest : List Token) :
    (leaf.token :: rest).findSome? Token.reason? = rest.findSome? Token.reason? := by
  obtain ⟨hnumber, hstring⟩ := h
  have hnone : leaf.token.reason? = none := by
    simp only [Token.reason?, Leaf.token]
  rw [List.findSome?_cons, hnone]

@[simp] theorem CallTree.reason?_decode (tree : CallTree) :
    Unreadable.reason? tree.request.decode = tree.tokens.findSome? Token.reason? := by
  have hword : callWord tree.safe ≠ .number ∧ callWord tree.safe ≠ .string := by
    cases tree.safe <;> decide
  rw [tokens, findSome?_reason?_cons tree.word hword, List.findSome?_singleton,
    Leaf.reason?_string, request, Call.decode, reason?_map]

/-- The first literal of an expression that cannot be decoded is the first token that cannot be. -/
@[simp] theorem ExprTree.reason?_decode {rank : Rank} (tree : ExprTree rank) :
    Unreadable.reason? tree.expr.decode = tree.tokens.findSome? Token.reason? := by
  induction tree with
  | operand atom ih => exact ih
  | add left plus right ihleft ihright =>
      rw [tokens, List.findSome?_append, findSome?_reason?_cons plus (by decide), ← ihleft,
        ← ihright, expr, Expr.decode]
      rcases left.expr.decode with e | decoded
      · rfl
      · rcases right.expr.decode with e | decoded <;> rfl
  | number leaf =>
      simp [tokens, expr, Expr.decode]
  | string leaf =>
      simp [tokens, expr, Expr.decode]
  | true leaf | false leaf | nil leaf | name leaf => rfl
  | call tree => simp [tokens, expr, Expr.decode]
  | parens opening inside closing ih =>
      rw [tokens, findSome?_reason?_cons opening (by decide), List.findSome?_append, ← ih, expr]
      rcases inside.expr.decode with e | decoded <;> rfl

@[simp] theorem StatementTree.reason?_decode (tree : StatementTree) :
    Unreadable.reason? tree.statement.decode = tree.tokens.findSome? Token.reason? := by
  cases tree with
  | assign word name sign value =>
      rw [tokens, findSome?_reason?_cons word (by decide), findSome?_reason?_cons name (by decide),
        findSome?_reason?_cons sign (by decide), ← value.reason?_decode, statement,
        Statement.decode, reason?_map]
  | print word value | «return» word value | fail word value =>
      rw [tokens, findSome?_reason?_cons word (by decide), ← value.reason?_decode, statement,
        Statement.decode, reason?_map]
  | call call => simp [tokens, statement, Statement.decode]

theorem ScriptTree.reason?_decodeAll (tree : ScriptTree) :
    Unreadable.reason? (Statement.decodeAll tree.statements) =
      tree.tokens.findSome? Token.reason? := by
  induction tree with
  | nil => rfl
  | cons first rest ih =>
      rw [ScriptTree.tokens, List.flatMap_cons, List.findSome?_append, ← first.reason?_decode,
        ScriptTree.statements, List.map_cons, Statement.decodeAll]
      rw [ScriptTree.tokens, ScriptTree.statements] at ih
      rw [← ih]
      rcases first.statement.decode with e | decoded
      · rfl
      · exact reason?_map _ _

/-! ### Where a token stands -/

/-- A scanned token is taken where it stands, on the line of its first character. -/
theorem Scans.exists_place {mode : Mode} {line : Nat} {s : List Char}
    {tokens before after : List Token} {token : Token} (h : Scans mode line s tokens)
    (split : tokens = before ++ token :: after) :
    ∃ front back mode', s = front ++ (token.text ++ back) ∧
      token.line = line + front.count '\n' ∧
      Taken (· ∈ admitted mode') token.terminal token.text back := by
  induction h generalizing before with
  | done _ => simp at split
  | @token mode line gap text rest terminal tokens _ taken _ ih =>
      rcases before with _ | ⟨first, before⟩
      · obtain ⟨rfl, -⟩ := List.cons.inj split
        exact ⟨gap, rest, mode, rfl, rfl, taken⟩
      · obtain ⟨-, hrest⟩ := List.cons.inj split
        obtain ⟨front, back, mode', hs, hline, htaken⟩ := ih hrest
        refine ⟨gap ++ (text ++ front), back, mode', by simp [hs], ?_, htaken⟩
        have hsolid := List.count_eq_zero_of_not_mem taken.endsGap.2
        rw [hline, List.count_append, List.count_append, hsolid]
        omega

end Grammar

open Grammar

/-- If a text reads as statements, decoding them fails with the first of its tokens that cannot be
decoded. -/
theorem reason?_readStatements {s : List Char} {raw : List RawStatement}
    (hread : Reader.read (Scan.ofText s) = .ok raw) :
    Unreadable.reason? (readStatements s) = (Scan.ofText s).tokens.findSome? Token.reason? := by
  obtain ⟨-, tree, htokens, rfl⟩ := (read_iff _ _).mp hread
  rw [← htokens, ← tree.reason?_decodeAll, readStatements, hread]

/-- String tokens end where they are decoded to end, whatever stands in them.

* The string at the start of a text is what the pattern of strings takes of it, as few characters as
  it can. Read from left to right, as it is decoded, its closing quote is the first quote that is no
  part of an escape, so all of it is decoded as one literal, piece by piece. This fails if and only
  if it has an invalid piece or a NUL character.
* If a text reads as statements, and some of its strings cannot be decoded but all of its numbers
  can, then it is reported as a syntax error with the first of these strings, on the line on which
  it begins, wherever it stands. -/
theorem strings_delimited_as_decoded :
    (∀ s text, Lexeme.string s = text ∧ text ≠ [] ↔ LazyMatch s text) ∧
    (∀ s text, LazyMatch s text → ∃ body rest,
      s = text ++ rest ∧ text = '\x22' :: (body ++ ['\x22']) ∧
      (pieces body).flatMap Piece.text = body ∧
      pieces (body ++ '\x22' :: rest) = pieces body ++ .plain '\x22' :: pieces rest ∧
      .plain '\x22' ∉ pieces body ∧
      Literal.decodeString? text =
        ((pieces body).mapM Piece.value?).map (fun values => ⟨values.flatten⟩) ∧
      (Literal.decodeString? text = none ↔
        (∃ piece ∈ pieces body, piece.Invalid) ∨ '\x00' ∈ body)) ∧
    ∀ file s raw, Reader.read (Scan.ofText s) = .ok raw →
      (∃ token ∈ (Scan.ofText s).tokens, token.Undecodable) →
      (∀ token ∈ (Scan.ofText s).tokens, token.terminal = .number →
        ∃ value, Literal.decodeNumber token.text = .ok value) →
      ∃ before token after front back,
        (Scan.ofText s).tokens = before ++ token :: after ∧ token.Undecodable ∧
        (∀ earlier ∈ before, ¬earlier.Undecodable) ∧
        s = front ++ (token.text ++ back) ∧ LazyMatch (token.text ++ back) token.text ∧
        token.line = 1 + front.count '\n' ∧
        parse file s = .error (.script ⟨file, some token.line⟩
          (.syntaxError ("Invalid string literal " ++ String.ofList token.text ++ "."))) := by
  refine ⟨fun s text => string_iff_lazyMatch, fun s text hmatch => ?_, ?_⟩
  · obtain ⟨rest, rfl, body, rfl, closing⟩ := string_iff.mp (string_iff_lazyMatch.mpr hmatch)
    have hb : Closes [] := rfl
    obtain ⟨hread, hfirst, -⟩ := closing.pieces_append hb rest
    exact ⟨body, rest, rfl, rfl, flatMap_text_pieces body, hread, hfirst,
      decodeString?_between_quotes body, decodeString?_eq_none_iff closing⟩
  · rintro file s raw hread ⟨bad, hmem, hbad⟩ numbers
    have hreason := reason?_readStatements hread
    -- the first token that cannot be decoded is a string, since all numbers can be
    rcases hfirst : (Scan.ofText s).tokens.findSome? Token.reason? with _ | e
    · have hnone := List.findSome?_eq_none_iff.mp hfirst bad hmem
      rw [Token.reason?_of_undecodable hbad] at hnone
      cases hnone
    · rw [hfirst, reason?_eq_some_iff] at hreason
      obtain ⟨before, token, after, hsplit, htoken, hbefore⟩ := List.findSome?_eq_some_iff.mp hfirst
      have hundecodable : token.Undecodable :=
        Token.undecodable_of_reason? (numbers token (by simp [hsplit])) htoken
      rw [Token.reason?_of_undecodable hundecodable] at htoken
      cases htoken
      have hending := ((read_iff _ _).mp hread).1
      obtain ⟨front, back, mode, hs, hline, taken⟩ := (scans_of_ending hending).exists_place hsplit
      rw [hundecodable.1] at taken
      have hstring := string_iff.mpr ⟨back, rfl, (taken_string_iff.mp taken).2⟩
      refine ⟨before, token, after, front, back, hsplit, hundecodable, fun earlier hearlier h => ?_,
        hs, string_iff_lazyMatch.mp hstring, hline, ?_⟩
      · cases (hbefore earlier hearlier).symm.trans (Token.reason?_of_undecodable h)
      · rw [parse, hreason]
        rfl

/-- A number and a string of an escaped backslash and an escaped quote, then a path with an escape
that is cut short, and then a string that is invalid as well. -/
def escapingText : List Char :=
  "print 1 + \"\\\\\\\"\"\nload \"C:\\x4\"\nreturn \"\\N\"".toList

/-- The quote behind three backslashes does not close the first string. The fault is that of the
path, on the second line. -/
theorem strings_delimited_as_decoded_escapingText :
    (∃ raw, Reader.read (Scan.ofText escapingText) = .ok raw) ∧
      (∃ body, LazyMatch (escapingText.drop 10) ('\x22' :: (body ++ ['\x22'])) ∧
        body = "\\\\\\\"".toList ∧ .plain '\x22' ∉ pieces body) ∧
      parse (some "/a.il") escapingText =
        .error (.script ⟨some "/a.il", some 2⟩
          (.syntaxError "Invalid string literal \"C:\\x4\".")) := by
  have htokens : (Scan.ofText escapingText).tokens =
      [⟨.printWord, "print".toList, 1⟩, ⟨.number, ['1'], 1⟩, ⟨.plus, ['+'], 1⟩,
        ⟨.string, "\"\\\\\\\"\"".toList, 1⟩,
        ⟨.loadWord, "load".toList, 2⟩, ⟨.string, "\"C:\\x4\"".toList, 2⟩,
        ⟨.returnWord, "return".toList, 3⟩, ⟨.string, "\"\\N\"".toList, 3⟩] := by
    decide +kernel
  have hread : (Reader.read (Scan.ofText escapingText)).toBool = true := by decide +kernel
  obtain ⟨raw, hread⟩ : ∃ raw, Reader.read (Scan.ofText escapingText) = .ok raw := by
    rcases h : Reader.read (Scan.ofText escapingText) with e | raw
    · rw [h] at hread
      cases hread
    · exact ⟨raw, rfl⟩
  have hnumber : Literal.decodeNumber ['1'] = .ok (.int 1) := by rfl
  have hgood : (Literal.decodeString? "\"\\\\\\\"\"".toList).isSome = true := by decide +kernel
  have hbad : Literal.decodeString? "\"C:\\x4\"".toList = none := by decide +kernel
  obtain ⟨delimited, read, reported⟩ := strings_delimited_as_decoded
  refine ⟨⟨raw, hread⟩, ?_, ?_⟩
  · have hmatch := (delimited (escapingText.drop 10) "\"\\\\\\\"\"".toList).mp
      ⟨by decide +kernel, by decide⟩
    obtain ⟨body, rest, -, htext, -, -, hfirst, -⟩ := read _ _ hmatch
    have hbody : "\"\\\\\\\"\"".toList.tail.dropLast = body := by
      rw [htext, List.tail_cons, List.dropLast_concat]
    exact ⟨body, htext ▸ hmatch, hbody.symm.trans (by decide), hfirst⟩
  · obtain ⟨before, token, after, front, back, hsplit, hundecodable, hbefore, -, -, -, hparse⟩ :=
      reported (some "/a.il") escapingText raw hread
        ⟨⟨.string, "\"C:\\x4\"".toList, 2⟩, by simp [htokens], rfl, hbad⟩
        (by simp [htokens, hnumber])
    rw [htokens] at hsplit
    have hwhich : token = ⟨.string, "\"C:\\x4\"".toList, 2⟩ := by
      have hmem : token ∈ before ++ token :: after := by simp
      rw [← hsplit] at hmem
      simp only [List.mem_cons, List.not_mem_nil, or_false] at hmem
      rcases hmem with rfl | rfl | rfl | rfl | rfl | rfl | rfl | rfl
      · cases hundecodable.1
      · cases hundecodable.1
      · cases hundecodable.1
      · rw [hundecodable.2] at hgood
        cases hgood
      · cases hundecodable.1
      · rfl
      · cases hundecodable.1
      · -- the path stands before it
        simp [List.cons_eq_append_iff] at hsplit
        have hpath : ⟨.string, "\"C:\\x4\"".toList, 2⟩ ∈ before := by simp [hsplit.1]
        exact (hbefore _ hpath ⟨rfl, hbad⟩).elim
    rw [hwhich] at hparse
    exact hparse

end ScriptLoader.Script
