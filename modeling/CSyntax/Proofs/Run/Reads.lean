import CSyntax.Proofs.Run.Takes

/-!
# Reads — what scripts read off given lexemes

`Script.Takes` is about one view.  A script that knows where to stop takes the same lexemes off many
views, whatever stands behind them.  This file defines:

* `Script.Reads` — from one table to another, the script takes the lexemes off all views in which
  they come first and something that it stops at comes behind them;
* `Script.Spells` — the script takes the lexemes where they stand alone, with nothing but a mark
  behind them;

and shows that the second gives the first (`Script.Spells.reads`): a script that has come to its end
without a look behind the mark does the same whatever is there.  The other lemmas on `Reads` put
readings together as scripts are put together.
-/

namespace CSyntax

/-! ## Views with more behind them -/

namespace View

/-- The view with other lexemes and another ending behind those ahead. -/
def extend (v : View) (after : List Piece) (ending : Except ParseError Position) : View :=
  { v with ahead := v.ahead ++ after, ending := ending }

/-- The view with another table in force. -/
def under (v : View) (table : SymbolTable) : View :=
  { v with table := table }

/-- The lexemes and nothing else: what is behind them cannot be read. -/
def alone (table : SymbolTable) (pieces : List Piece) (fault : ParseError) : View :=
  { ahead := pieces, ending := .error fault, table := table, taken := none }

/-- Nothing at all, where the table is in force. -/
def empty (table : SymbolTable) : View :=
  { ahead := [], ending := .ok (.start none), table := table, taken := none }

variable {v w : View} {after : List Piece} {ending : Except ParseError Position}

theorem token?_extend {n : Nat} {token : Token} (after : List Piece)
    (ending : Except ParseError Position) (hend : v.ending.toOption = none)
    (h : v.token? n = some token) :
    v.ahead[n]?.isSome = true ∧ (v.extend after ending).token? n = some token := by
  unfold token? at h ⊢
  split at h
  · rename_i piece hpiece
    have happend : (v.extend after ending).ahead[n]? = some piece := by
      rw [extend, List.getElem?_append_left (List.getElem?_eq_some_iff.1 hpiece).1, hpiece]
    rw [happend]
    exact ⟨by rw [hpiece]; rfl, h⟩
  · rw [hend] at h
    cases h

/-- What has been done without a look at the end is done whatever comes there. -/
theorem perform_extend {r : Request} {answer : r.Answer} (hend : v.ending.toOption = none)
    (h : v.perform r = some (answer, w)) :
    (v.extend after ending).perform r = some (answer, w.extend after ending) := by
  cases r with
  | peek n =>
      obtain ⟨token, htoken, heq⟩ := Option.map_eq_some_iff.1 h
      cases heq
      simp only [perform, (token?_extend after ending hend htoken).2, Option.map_some]
  | advance =>
      obtain ⟨token, htoken, heq⟩ := Option.map_eq_some_iff.1 h
      cases heq
      obtain ⟨hfirst, hsame⟩ := token?_extend after ending hend htoken
      obtain ⟨piece, others, hahead⟩ : ∃ piece others, v.ahead = piece :: others := by
        cases hahead : v.ahead with
        | nil =>
            rw [hahead] at hfirst
            cases hfirst
        | cons piece others => exact ⟨piece, others, rfl⟩
      simp only [perform, hsame, Option.map_some]
      simp [extend, hahead]
  | reset m =>
      cases h
      simp [perform, extend]
  | leave position =>
      obtain ⟨outer, houter, heq⟩ := Option.map_eq_some_iff.1 h
      cases heq
      have houter' : (v.extend after ending).table.leave? = some outer := houter
      simp only [perform, houter', Option.map_some]
      rfl
  | _ =>
      cases h
      rfl

end View

/-- Where the table is in force, the lexemes begin with one of a kind with the property. -/
def SymbolTable.Faces (T : SymbolTable) (P : TokenKind → Prop) (pieces : List Piece) : Prop :=
  ∃ first others, pieces = first :: others ∧ P (T.classify first.lexeme)

namespace Piece

/-- One of the marks comes next. -/
def EndsWith (marks : List Punctuator) (pieces : List Piece) : Prop :=
  ∃ first others, pieces = first :: others ∧ ∃ mark ∈ marks, first.lexeme = .punctuator mark

namespace EndsWith

variable {marks others : List Punctuator} {pieces : List Piece}

theorem cons {mark : Punctuator} {piece : Piece} (hmark : mark ∈ marks)
    (h : piece.lexeme = .punctuator mark) : EndsWith marks (piece :: pieces) :=
  ⟨piece, pieces, rfl, mark, hmark, h⟩

theorem mono (h : EndsWith marks pieces) (hsub : ∀ mark ∈ marks, mark ∈ others) :
    EndsWith others pieces := by
  obtain ⟨first, rest, rfl, mark, hmark, hlexeme⟩ := h
  exact cons (hsub mark hmark) hlexeme

/-- Whatever is in front of one of the marks, there is a first lexeme. -/
theorem exists_first (front : List Piece) (h : EndsWith marks pieces) :
    ∃ first rest, front ++ pieces = first :: rest := by
  obtain ⟨first, rest, rfl, -⟩ := h
  cases front with
  | nil => exact ⟨first, rest, rfl⟩
  | cons piece front => exact ⟨piece, _, rfl⟩

end EndsWith
end Piece

namespace Script

variable {α β : Type}

theorem Takes.extend {prog : Script α} {v w : View} {value : α} (h : prog.Takes v value w)
    (hend : v.ending.toOption = none) (after : List Piece) (ending : Except ParseError Position) :
    prog.Takes (v.extend after ending) value (w.extend after ending) := by
  revert hend
  refine h.induct ?done ?request ?call
  case done => exact fun _ _ _ => .pure
  case request =>
    intro _ r _ v u _ answer _ hperform _ ih hend
    exact .request (View.perform_extend hend hperform) (ih (View.ending_perform hperform ▸ hend))
  case call =>
    intro _ f _ v u _ result _ hrule ih _ ih' hend
    exact (Takes.rule (ih hend)).bind (ih' (hrule.ending_eq ▸ hend))

/-! ## Readings -/

/-- Where the first table is in force and the lexemes come first, before others as `A` says, the
script takes them.  It gives a value as `P` says and leaves the second table. -/
def Reads (prog : Script α) (T : SymbolTable) (pieces : List Piece) (P : α → Prop) (U : SymbolTable)
    (A : List Piece → Prop) : Prop :=
  ∀ (v : View) after, v.taken = none → v.table = T → A after →
    ∃ value, P value ∧ prog.Takes (v.facing (pieces ++ after)) value ((v.under U).facing after)

namespace Reads

variable {prog : Script α} {next : α → Script β} {T U V : SymbolTable} {pieces others : List Piece}
  {piece : Piece} {P : α → Prop} {Q : β → Prop} {A B : List Piece → Prop}

/-- The first script stops at what the second one reads. -/
theorem bind (h : prog.Reads T pieces P U A)
    (hnext : ∀ a, P a → (next a).Reads U others Q V B)
    (hstops : ∀ after, B after → A (others ++ after)) :
    (prog >>= next).Reads T (pieces ++ others) Q V B := by
  intro v after hv htable hafter
  obtain ⟨a, ha, htakes⟩ := h v (others ++ after) hv htable (hstops after hafter)
  obtain ⟨b, hb, htakes'⟩ := hnext a ha (v.under U) after hv rfl hafter
  rw [List.append_assoc]
  exact ⟨b, hb, htakes.bind htakes'⟩

/-- The first script does not care what comes behind its lexemes. -/
theorem append (h : prog.Reads T pieces P U fun _ => True)
    (hnext : ∀ a, P a → (next a).Reads U others Q V A) :
    (prog >>= next).Reads T (pieces ++ others) Q V A :=
  bind h hnext fun _ _ => trivial

/-- It takes one lexeme. -/
theorem cons (h : prog.Reads T [piece] P U fun _ => True)
    (hnext : ∀ a, P a → (next a).Reads U others Q V A) :
    (prog >>= next).Reads T (piece :: others) Q V A :=
  append h hnext

/-- It takes none. -/
theorem step (h : prog.Reads T [] P U fun _ => True)
    (hnext : ∀ a, P a → (next a).Reads U others Q V A) : (prog >>= next).Reads T others Q V A :=
  append h hnext

/-- It takes none because of what comes next. -/
theorem look (h : prog.Reads T [] P U A) (hnext : ∀ a, P a → (next a).Reads U others Q V B)
    (hstops : ∀ after, B after → A (others ++ after)) : (prog >>= next).Reads T others Q V B :=
  bind h hnext hstops

/-- The first script takes all that is taken. -/
theorem last (h : prog.Reads T pieces P U A) (hnext : ∀ a, P a → (next a).Reads U [] Q V B)
    (hstops : ∀ after, B after → A after) : (prog >>= next).Reads T pieces Q V B := by
  simpa using bind h hnext hstops

theorem map {f : α → β} (h : prog.Reads T pieces P U A) (hf : ∀ a, P a → Q (f a)) :
    (prog >>= fun a => Pure.pure (f a)).Reads T pieces Q U A := by
  intro v after hv htable hafter
  obtain ⟨a, ha, htakes⟩ := h v after hv htable hafter
  exact ⟨f a, hf a ha, htakes.bind Takes.pure⟩

theorem pure {value : α} (h : P value) : (Pure.pure value : Script α).Reads T [] P T A :=
  fun _ _ _ htable _ => ⟨value, h, htable ▸ Takes.pure⟩

theorem rule {f : Nonterminal} {P : f.Result → Prop} (h : (Grammar.script f).Reads T pieces P U A) :
    (Script.rule f).Reads T pieces P U A := by
  intro v after hv htable hafter
  obtain ⟨result, hresult, htakes⟩ := h v after hv htable hafter
  exact ⟨result, hresult, Takes.rule htakes⟩

/-- What follows a look at the first lexeme. -/
theorem peek {next : Token → Script β}
    (h : (next ⟨T.classify piece.lexeme, piece.position⟩).Reads T (piece :: others) Q V A) :
    (Script.peek >>= next).Reads T (piece :: others) Q V A := by
  rintro v after hv rfl hafter
  obtain ⟨b, hb, htakes⟩ := h v after hv rfl hafter
  exact ⟨b, hb, Takes.peek.bind htakes⟩

theorem advance :
    Script.advance.Reads T [piece] (· = ⟨T.classify piece.lexeme, piece.position⟩) T A := by
  rintro v after hv rfl -
  exact ⟨_, rfl, Takes.advance hv⟩

theorem expect {kind : TokenKind} (h : T.classify piece.lexeme = kind) :
    (Script.expect kind).Reads T [piece] (fun _ => True) T A := by
  rintro v after hv rfl -
  exact ⟨_, trivial, Takes.expect hv h⟩

theorem accept {kind : TokenKind} (h : T.classify piece.lexeme = kind) :
    (Script.accept kind).Reads T [piece] (· = true) T A := by
  rintro v after hv rfl -
  exact ⟨_, rfl, Takes.accept hv h⟩

theorem expectWord {name : String}
    (h : T.classify piece.lexeme = .identifier name ∨ T.classify piece.lexeme = .typeName name) :
    Script.expectWord.Reads T [piece] (· = name) T A := by
  rintro v after hv rfl -
  exact ⟨_, rfl, Takes.expectWord hv h⟩

theorem accept_not {kind : TokenKind} :
    (Script.accept kind).Reads T [] (· = false) T (T.Faces fun found => found ≠ kind) := by
  rintro v after hv rfl ⟨first, rest, rfl, hfirst⟩
  exact ⟨_, rfl, Takes.accept_not hfirst⟩

theorem nextIs {kind : TokenKind} :
    (Script.nextIs kind).Reads T [] (· = true) T (T.Faces fun found => found = kind) := by
  rintro v after hv rfl ⟨first, rest, rfl, hfirst⟩
  exact ⟨_, decide_eq_true hfirst, Takes.nextIs⟩

theorem nextIs_not {kind : TokenKind} :
    (Script.nextIs kind).Reads T [] (· = false) T (T.Faces fun found => found ≠ kind) := by
  rintro v after hv rfl ⟨first, rest, rfl, hfirst⟩
  exact ⟨_, decide_eq_false hfirst, Takes.nextIs⟩

theorem enter (kind : ScopeKind) :
    (Script.enter kind).Reads T [] (fun _ => True) (T.enter kind) A := by
  rintro v after hv rfl -
  exact ⟨(), trivial, Takes.enter⟩

theorem declare (name : String) (meaning : Meaning) :
    (Script.declare name meaning).Reads T [] (fun _ => True) (T.declare name meaning) A := by
  rintro v after hv rfl -
  exact ⟨(), trivial, Takes.declare⟩

theorem leave (position : Position) (h : T.leave? = some U) :
    (Script.leave position).Reads T [] (fun _ => True) U A := by
  rintro v after hv rfl -
  exact ⟨(), trivial, Takes.leave h⟩

end Reads

/-! ## Lexemes that stand alone -/

/-- Alone before any of the marks, the lexemes are read from one table to the other.  The script
gives a value as `P` says and leaves the mark. -/
def Spells (prog : Script α) (marks : List Punctuator) (T : SymbolTable) (pieces : List Piece)
    (P : α → Prop) (U : SymbolTable) : Prop :=
  ∀ mark ∈ marks, ∀ piece : Piece, piece.lexeme = .punctuator mark → ∃ value fault, P value ∧
    prog.Takes (.alone T (pieces ++ [piece]) fault) value (.alone U [piece] fault)

theorem Spells.reads {prog : Script α} {marks : List Punctuator} {T U : SymbolTable}
    {pieces : List Piece} {P : α → Prop} (h : prog.Spells marks T pieces P U) :
    prog.Reads T pieces P U (Piece.EndsWith marks) := by
  rintro v after hv rfl ⟨first, others, rfl, mark, hmark, hlexeme⟩
  obtain ⟨value, fault, hvalue, htakes⟩ := h mark hmark first hlexeme
  have hall := htakes.extend rfl others v.ending
  have hbefore : (View.alone v.table (pieces ++ [first]) fault).extend others v.ending =
      v.facing (pieces ++ first :: others) := by
    simp [View.alone, View.extend, View.facing, hv]
  have hbehind : (View.alone U [first] fault).extend others v.ending =
      (v.under U).facing (first :: others) := by
    simp [View.alone, View.extend, View.facing, View.under, hv]
  exact ⟨value, hvalue, hbefore ▸ hbehind ▸ hall⟩

end Script
end CSyntax
