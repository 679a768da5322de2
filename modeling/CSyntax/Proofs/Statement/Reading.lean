import CSyntax.Proofs.Scope.Nesting
import CSyntax.Proofs.Statement.Declarations
import CSyntax.Proofs.Statement.Shape

/-!
# Reading — the parts of written statements come back

A written statement is read back part by part.  This file has what that takes:

* `token?_of_statement` — what a statement begins with, so that an item of a block that is no
  declaration does not begin like one;
* `SymbolTable.Follows` — the tables behind what is written;
* `reads_condition`, `reads_forStart`, `reads_expressionUnless` — the parts in parentheses and those
  in front of a mark.

The statements themselves are put together in `Roundtrip`.
-/

namespace CSyntax

open Script Grammar

/-! ## What statements begin with -/

namespace TokenKind

/-- Whether a statement that is no declaration may begin with the token. -/
def opensStatement : TokenKind → Bool
  | .keyword word => word = .sizeof || word.statementForm?.isSome
  | .punctuator .openBrace | .punctuator .semicolon => true
  | kind => kind.opensExpression

theorem opensStatement_of_opensExpression {kind : TokenKind} (h : kind.opensExpression = true) :
    kind.opensStatement = true := by
  unfold opensStatement
  split
  · unfold opensExpression at h
    split at h
    all_goals simp_all [opensPrimary]
  · rfl
  · rfl
  · exact h

theorem startsDeclaration_of_opensStatement {kind : TokenKind} (h : kind.opensStatement = true) :
    kind.startsDeclaration = false := by
  cases kind with
  | keyword word => cases word <;> first | rfl | cases h
  | typeName name => cases h
  | _ => rfl

/-- What stands between the items of a block. -/
structure OpensItem (kind : TokenKind) : Prop where
  notElse : kind ≠ .keyword .else
  notBrace : kind ≠ .punctuator .closeBrace
  notEnd : kind ≠ .endOfFile

theorem opensItem_of_opensStatement {kind : TokenKind} (h : kind.opensStatement = true) :
    kind.OpensItem := by
  refine ⟨?_, ?_, ?_⟩
  · rintro rfl
    cases h
  · rintro rfl
    cases h
  · rintro rfl
    cases h

theorem opensItem_of_startsDeclaration {kind : TokenKind} (h : kind.startsDeclaration = true) :
    kind.OpensItem := by
  refine ⟨?_, ?_, ?_⟩
  · rintro rfl
    cases h
  · rintro rfl
    cases h
  · rintro rfl
    cases h

end TokenKind

/-- What is read as a statement begins like one. -/
theorem token?_of_statement {v w : View} {s : Statement} (h : statement.Takes v s w) :
    ∃ token, v.token? 0 = some token ∧ token.kind.opensStatement = true := by
  obtain ⟨depth, hread⟩ := h
  obtain ⟨token, u, hpeek, hnext⟩ := bind_of_read hread
  obtain ⟨rfl, htoken⟩ := peek_of_read hpeek
  refine ⟨token, htoken, ?_⟩
  have expression : ∀ {position : Position} {s : Statement} {w : View},
      (expressionStatement position).read (Parser.readAt depth) u = some (s, w) →
        token.kind.opensStatement = true := by
    intro position s w hread
    obtain ⟨value, _, hvalue, -⟩ := bind_of_read hread
    obtain ⟨token', htoken', hopens⟩ := token?_of_expression ⟨depth, hvalue⟩
    obtain rfl : token = token' := Option.some_inj.1 (htoken.symm.trans htoken')
    exact TokenKind.opensStatement_of_opensExpression hopens
  split at hnext
  · rename_i hkind
    rw [hkind]
    rfl
  · rename_i hkind
    rw [hkind]
    rfl
  · rename_i word hkind
    cases hform : word.statementForm? with
    | some form =>
        rw [hkind]
        simp [TokenKind.opensStatement, hform]
    | none =>
        rw [hform] at hnext
        exact expression hnext
  · rename_i hkind
    rw [hkind]
    rfl
  · exact expression hnext

/-- The word `else` begins no item of a block, and does not end one. -/
theorem token?_of_blockItems {v w : View} {items : List Statement}
    (h : blockItems.Takes v items w) :
    ∃ token, v.token? 0 = some token ∧ token.kind ≠ .keyword .else := by
  obtain ⟨depth, hread⟩ := h
  obtain ⟨token, u, hpeek, hnext⟩ := bind_of_read hread
  obtain ⟨rfl, htoken⟩ := peek_of_read hpeek
  refine ⟨token, htoken, ?_⟩
  split at hnext
  · rename_i hkind
    rw [hkind]
    nofun
  · cases hnext
  · obtain ⟨item, u, hitem, -⟩ := bind_of_read hnext
    unfold blockItem at hitem
    split at hitem
    · rename_i hstarts
      exact (TokenKind.opensItem_of_startsDeclaration hstarts).notElse
    · obtain ⟨token', htoken', hopens⟩ := token?_of_statement ⟨depth, hitem⟩
      obtain rfl : token = token' := Option.some_inj.1 (htoken.symm.trans htoken')
      exact (TokenKind.opensItem_of_opensStatement hopens).notElse

/-! ## Tables behind what is written -/

/-- On views, too, requests do to the table what `nesting` says. -/
theorem View.nesting_perform {v w : View} {r : Request} {answer : r.Answer}
    (may : (nesting true).may r v.table) (h : v.perform r = some (answer, w)) :
    (nesting true).step r v.table answer w.table := by
  cases r with
  | peek n | advance =>
      obtain ⟨token, -, heq⟩ := Option.map_eq_some_iff.1 h
      cases heq
      rfl
  | leave position =>
      obtain ⟨outer, houter, heq⟩ := Option.map_eq_some_iff.1 h
      cases heq
      exact houter
  | declare name meaning =>
      cases h
      exact ⟨may rfl, rfl⟩
  | _ =>
      cases h
      rfl

theorem Script.Takes.frame {α : Type} {prog : Script α} {value : α} {v w : View} {place : Place}
    (h : prog.Takes v value w) (hkeeps : prog.Keeps true place) (hplace : place.Holds v.table) :
    v.table.Frame w.table := by
  obtain ⟨-, R, hleft⟩ := Contract.sound_reads View.table (fun _ => True) (valid_nesting true)
    (fun r v answer w _ may hperform => ⟨trivial, View.nesting_perform may hperform⟩) trivial
    (hkeeps v.table fun _ => hplace) h
  exact hleft.toFrame

/-- A table where statements are read: reserved words have no meaning, and the innermost scope is a
block. -/
structure SymbolTable.Ready (T : SymbolTable) : Prop where
  keywordFree : T.KeywordFree
  inBlock : T.InBlock

/-- The second table comes about by reading where the first is in force. -/
structure SymbolTable.Follows (T U : SymbolTable) : Prop where
  frame : T.Frame U
  keywordFree : U.KeywordFree

namespace SymbolTable

variable {T U V : SymbolTable}

theorem Ready.enter (h : T.Ready) : (T.enter .block).Ready where
  keywordFree := h.keywordFree.enter .block
  inBlock := rfl

theorem Ready.refl (h : T.Ready) : T.Follows T where
  frame := .refl T
  keywordFree := h.keywordFree

namespace Follows

theorem trans (h : T.Follows U) (h' : U.Follows V) : T.Follows V where
  frame := h.frame.trans h'.frame
  keywordFree := h'.keywordFree

theorem ready (h : T.Follows U) (hT : T.Ready) : U.Ready where
  keywordFree := h.keywordFree
  inBlock := h.frame.inBlock hT.inBlock

end Follows
end SymbolTable

section

variable {T U : SymbolTable} {pieces : List Piece}

theorem Script.Reads.follows {α : Type} {prog : Script α} {P R : α → Prop} {A : List Piece → Prop}
    (h : prog.Reads T pieces P U A) (horderly : prog.Orderly R) (hkeeps : prog.Keeps true .block)
    (after : List Piece) (hafter : A after) (hT : T.Ready) : T.Follows U := by
  obtain ⟨value, -, htakes⟩ := h (.empty T) after rfl rfl hafter
  exact ⟨htakes.frame hkeeps hT.inBlock,
    (htakes.disciplined_of_orderly horderly rfl hT.keywordFree).2⟩

theorem Script.Spells.follows {α : Type} {prog : Script α} {P R : α → Prop} {mark : Punctuator}
    (h : prog.Spells [mark] T pieces P U) (horderly : prog.Orderly R)
    (hkeeps : prog.Keeps true .block) (hT : T.Ready) : T.Follows U :=
  h.reads.follows horderly hkeeps [Lexeme.piece (.punctuator mark)]
    (Piece.EndsWith.cons (List.mem_singleton_self _) rfl) hT

theorem Expr.Spelled.follows {value : Expr} {mark : Punctuator}
    (h : value.Spelled [mark] T pieces U) (hT : T.Ready) : T.Follows U :=
  Spells.follows h (orderly_expression .comma) (keeps_expression .comma) hT

theorem Expr.WrittenOption.follows {value : Option Expr} {mark : Punctuator}
    (h : Expr.WrittenOption mark T value pieces U) (hT : T.Ready) : T.Follows U := by
  cases h with
  | none => exact hT.refl
  | some h => exact h.follows hT

theorem DeclarationGroup.Written.follows {group : DeclarationGroup}
    (h : group.Written T pieces U) (hT : T.Ready) : T.Follows U :=
  (h.reads (A := fun _ => True) hT.keywordFree).follows orderly_declarationGroup
    keeps_declarationGroup [] trivial hT

theorem ForStart.Written.follows {start : Option ForStart} (h : ForStart.Written T start pieces U)
    (hT : T.Ready) : T.Follows U := by
  cases h with
  | none => exact hT.refl
  | declaration h => exact h.follows hT
  | expression h => exact h.follows hT

/-- However a passage is shaped, the table behind it has the scopes of the one before it. -/
theorem Passage.Written.follows {passage : Passage} (h : Passage.Written T passage pieces U)
    (hT : T.Ready) : T.Follows U := by
  induction h with
  | block | «for» | goto | «break» | «continue» | empty | nil => exact hT.refl
  | declaration h => exact h.follows hT
  | expression h => exact h.follows hT
  | ifOnly _ _ htest _ _ ih | «while» _ _ htest _ _ ih | switch _ _ htest _ _ ih =>
      have htest := htest.follows hT
      exact htest.trans (ih (htest.ready hT))
  | ifElse _ _ htest _ _ _ _ ih ih' =>
      have htest := htest.follows hT
      have htrue := htest.trans (ih (htest.ready hT))
      exact htrue.trans (ih' (htrue.ready hT))
  | doWhile _ _ _ _ htest _ _ ih =>
      have hbody := ih hT
      exact hbody.trans (htest.follows (hbody.ready hT))
  | case _ hvalue _ _ ih =>
      have hvalue := hvalue.follows (orderly_expression .conditional) (keeps_expression .conditional) hT
      exact hvalue.trans (ih (hvalue.ready hT))
  | default _ _ _ ih | label _ _ _ _ ih => exact ih hT
  | «return» _ hvalue => exact hvalue.follows hT
  | cons _ _ ih ih' =>
      have hitem := ih hT
      exact hitem.trans (ih' (hitem.ready hT))

end

/-! ## Parts of statements -/

section

variable {T U V : SymbolTable} {piece opening closing : Piece} {pieces others : List Piece}
  {A : List Piece → Prop}

theorem SymbolTable.classify_of_mark {mark : Punctuator} (h : piece.lexeme = .punctuator mark) :
    T.classify piece.lexeme = .punctuator mark := by
  rw [h]
  rfl

theorem SymbolTable.classify_of_word {word : Keyword} (hfree : T.KeywordFree)
    (h : piece.lexeme = .keyword word) : T.classify piece.lexeme = .keyword word := by
  rw [h]
  exact hfree.classify_keyword word

/-- The marks that lexemes end with are told from other tokens by the table. -/
theorem Piece.EndsWith.faces {mark : Punctuator} (h : Piece.EndsWith [mark] pieces) :
    T.Faces (· = .punctuator mark) pieces := by
  obtain ⟨first, rest, rfl, other, hother, hlexeme⟩ := h
  obtain rfl := List.mem_singleton.1 hother
  exact ⟨first, rest, rfl, SymbolTable.classify_of_mark hlexeme⟩

/-- An expression begins with a token of its own. -/
theorem Expr.Spelled.first {value : Expr} {marks : List Punctuator} {mark : Punctuator}
    (h : value.Spelled marks T pieces U) (hmark : mark ∈ marks)
    (hcloses : (TokenKind.punctuator mark).opensExpression = false) :
    ∃ first rest, pieces = first :: rest ∧ (T.classify first.lexeme).opensExpression = true := by
  obtain ⟨value', fault, -, htakes⟩ := h mark hmark (Lexeme.piece (.punctuator mark)) rfl
  obtain ⟨token, htoken, hopens⟩ := token?_of_expression htakes
  cases pieces with
  | nil =>
      obtain rfl := Option.some_inj.1 htoken
      exact absurd (hcloses.symm.trans hopens) nofun
  | cons first rest =>
      obtain rfl := Option.some_inj.1 htoken
      exact ⟨first, rest, rfl, hopens⟩

theorem reads_expressionUnless {mark : Punctuator} {value : Option Expr}
    (h : Expr.WrittenOption mark T value pieces U)
    (hcloses : (TokenKind.punctuator mark).opensExpression = false) :
    (expressionUnless mark).Reads T pieces (Alike (Option.map Expr.erase) value) U
      (Piece.EndsWith [mark]) := by
  cases h with
  | none =>
      refine Reads.nextIs.look (fun found hfound => ?_) fun after hafter => hafter.faces
      rw [if_pos hfound]
      exact Reads.pure rfl
  | some hvalue =>
      obtain ⟨first, rest, rfl, hopens⟩ := hvalue.first (List.mem_singleton_self _) hcloses
      refine Reads.nextIs_not.look (fun found hfound => ?_) fun after _ => ⟨first, _, rfl, ?_⟩
      · rw [if_neg (by simp [hfound])]
        exact hvalue.reads.map fun value' h => Alike.some_iff.2 h
      · intro heq
        rw [heq, hcloses] at hopens
        cases hopens

theorem reads_condition {α : Type} {next : Expr → Script α} {P : α → Prop} {condition : Expr}
    (hopening : opening.lexeme = .punctuator .openParen)
    (hvalue : condition.Spelled [.closeParen] T pieces U)
    (hclosing : closing.lexeme = .punctuator .closeParen)
    (hnext : ∀ value, Alike Expr.erase condition value → (next value).Reads U others P V A) :
    (Grammar.condition >>= next).Reads T (opening :: (pieces ++ closing :: others)) P V A := by
  have hcondition : Grammar.condition.Reads T (opening :: (pieces ++ [closing]))
      (Alike Expr.erase condition) U fun _ => True := by
    refine (Reads.expect (SymbolTable.classify_of_mark hopening)).cons fun _ _ => ?_
    refine (Reads.rule (f := .expression .comma) hvalue.reads).bind (fun value halike => ?_)
      fun after _ => Piece.EndsWith.cons (List.mem_singleton_self _) hclosing
    exact (Reads.expect (SymbolTable.classify_of_mark hclosing)).cons fun _ _ => Reads.pure halike
  simpa using hcondition.bind hnext fun _ _ => trivial

theorem reads_forStart {start : Option ForStart} (hfree : T.KeywordFree)
    (h : ForStart.Written T start pieces U) :
    forStart.Reads T pieces (Alike (Option.map ForStart.erase) start) U A := by
  cases h with
  | none hsemicolon =>
      refine (Reads.accept (SymbolTable.classify_of_mark hsemicolon)).cons fun found hfound => ?_
      rw [if_pos hfound]
      exact Reads.pure rfl
  | declaration hgroup =>
      obtain ⟨first, rest, word, rfl, hword, hstarts⟩ := hgroup.first
      have hkind := SymbolTable.classify_of_word hfree hword
      refine Reads.accept_not.look (fun found hfound => ?_) fun after _ =>
        ⟨first, _, rfl, by simp [hkind]⟩
      rw [if_neg (by simp [hfound])]
      refine Reads.peek ?_
      rw [if_pos (by simpa [hkind, TokenKind.startsDeclaration] using hstarts)]
      exact (hgroup.reads hfree).map fun group h => Alike.some_iff.2 (congrArg ForStart.declaration h)
  | expression hvalue hsemicolon =>
      obtain ⟨first, rest, rfl, hopens⟩ := hvalue.first (List.mem_singleton_self _) rfl
      refine Reads.accept_not.look (fun found hfound => ?_) fun after _ =>
        ⟨first, _, rfl, fun heq => ?_⟩
      · rw [if_neg (by simp [hfound])]
        refine Reads.peek ?_
        rw [if_neg (by simp [TokenKind.startsDeclaration_of_opensStatement
          (TokenKind.opensStatement_of_opensExpression hopens)])]
        refine hvalue.reads.bind (fun value' halike => ?_)
          fun after _ => Piece.EndsWith.cons (List.mem_singleton_self _) hsemicolon
        refine (Reads.expect (SymbolTable.classify_of_mark hsemicolon)).cons fun _ _ => Reads.pure ?_
        exact Alike.some_iff.2 (congrArg ForStart.expression halike)
      · rw [heq] at hopens
        cases hopens

end

end CSyntax
