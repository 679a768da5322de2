import CSyntax.Proofs.Declarator.Notation
import CSyntax.Proofs.Run.Faults

/-!
# Shape — where declarations and `else` stand in statements

Not every tree of statements can be written down.  A declaration is an item of a block, or begins a
`for` loop, and nothing else; and an `else` belongs to the nearest `if` in front of it that has none
yet.  This file says so of trees:

* `Statement.placed` — all declarations are items of blocks;
* `Statement.openEnded` — an `else` behind the statement would go into it;
* `Statement.nearest` — no `else` stands behind a statement that would take it;

and shows that all bodies of functions that are parsed are such (`shapedList_of_parse`).  The
condition on `else` is about the right edge of a statement, so what a rule promises is about the
token behind the statement it reads (`shaping`).
-/

namespace CSyntax

/-! ## Trees that can be written -/

mutual

/-- Whether an `else` behind the statement would belong to an `if` at its right edge. -/
def Statement.openEnded : Statement → Bool
  | .if _ _ _ whenFalse => Statement.openEndedElse whenFalse
  | .while _ _ body | .for _ _ _ _ body | .switch _ _ body | .case _ _ body | .default _ body
  | .label _ _ body => body.openEnded
  | _ => false

/-- The same of an `if`, seen from its `else`. -/
def Statement.openEndedElse : Option Statement → Bool
  | none => true
  | some whenFalse => whenFalse.openEnded

end

mutual

/-- Whether every `else` in the statement belongs to the nearest `if` that can take it. -/
def Statement.nearest : Statement → Bool
  | .block _ items => Statement.nearestList items
  | .if _ _ whenTrue whenFalse =>
      whenTrue.nearest && Statement.nearestElse whenTrue.openEnded whenFalse
  | .while _ _ body | .doWhile _ body _ | .for _ _ _ _ body | .switch _ _ body | .case _ _ body
  | .default _ body | .label _ _ body => body.nearest
  | _ => true

def Statement.nearestList : List Statement → Bool
  | [] => true
  | item :: items => item.nearest && Statement.nearestList items

/-- The same of what stands behind an `else`, where `inner` tells whether an `if` in front of it
could take the `else`. -/
def Statement.nearestElse (inner : Bool) : Option Statement → Bool
  | none => true
  | some whenFalse => !inner && whenFalse.nearest

end

def Statement.isDeclaration : Statement → Bool
  | .declaration _ _ => true
  | _ => false

mutual

/-- Whether the statement is no declaration, and those in it are items of blocks. -/
def Statement.placed : Statement → Bool
  | .declaration _ _ => false
  | .block _ items => Statement.placedList items
  | .if _ _ whenTrue whenFalse => whenTrue.placed && Statement.placedOption whenFalse
  | .while _ _ body | .doWhile _ body _ | .for _ _ _ _ body | .switch _ _ body | .case _ _ body
  | .default _ body | .label _ _ body => body.placed
  | _ => true

/-- The items of a block may be declarations. -/
def Statement.placedList : List Statement → Bool
  | [] => true
  | item :: items => (item.isDeclaration || item.placed) && Statement.placedList items

def Statement.placedOption : Option Statement → Bool
  | none => true
  | some statement => statement.placed

end

/-- The statement can stand where a statement is asked for. -/
structure Statement.Shaped (s : Statement) : Prop where
  placed : s.placed = true
  nearest : s.nearest = true

/-- The statements can be the items of a block. -/
structure Statement.ShapedList (items : List Statement) : Prop where
  placed : Statement.placedList items = true
  nearest : Statement.nearestList items = true

/-- The statement was read where the word `else` comes next, or does not. -/
structure Statement.ReadBefore (s : Statement) (isElse : Bool) : Prop where
  shaped : s.Shaped
  closed : s.openEnded = true → isElse = false

namespace Statement

theorem Shaped.readBefore {s : Statement} (h : s.Shaped) (hopen : s.openEnded = false)
    (isElse : Bool) : s.ReadBefore isElse where
  shaped := h
  closed := by simp [hopen]

theorem ShapedList.nil : ShapedList [] where
  placed := rfl
  nearest := rfl

theorem ShapedList.cons {item : Statement} {items : List Statement}
    (hitem : item.isDeclaration = true ∨ item.Shaped) (h : ShapedList items) :
    ShapedList (item :: items) := by
  rcases hitem with hitem | hitem
  · have hnearest : item.nearest = true := by
      cases item <;> first | rfl | cases hitem
    exact ⟨by simp [placedList, hitem, h.placed], by simp [nearestList, hnearest, h.nearest]⟩
  · exact ⟨by simp [placedList, hitem.placed, h.placed],
      by simp [nearestList, hitem.nearest, h.nearest]⟩

theorem Shaped.of_if {position : Position} {condition : Expr} {whenTrue whenFalse : Statement}
    (h : whenTrue.Shaped) (hopen : whenTrue.openEnded = false) (h' : whenFalse.Shaped) :
    Shaped (.if position condition whenTrue (some whenFalse)) where
  placed := by simp [Statement.placed, placedOption, h.placed, h'.placed]
  nearest := by simp [Statement.nearest, nearestElse, h.nearest, hopen, h'.nearest]

end Statement

/-! ## What rules promise -/

/-- Whether the next lexeme is the word `else`. -/
def View.facesElse (v : View) : Bool :=
  v.ahead.head?.any fun piece => piece.lexeme = .word Keyword.else.spelling

/-- The shapes of statements, where the state tells whether the next word is `else`. -/
def shaping : Contract Bool where
  may _ _ := True
  step
    | .peek 0, isElse, token, after => after = isElse ∧ (isElse = true ↔ token.kind = .keyword .else)
    | .leave _, isElse, _, after => after = isElse
    | _, _, _, _ => True
  pre _ _ := True
  post
    | .statement, _, s, after, _ => s.ReadBefore after
    | .blockItems, _, items, _, _ => Statement.ShapedList items
    | .externalDeclarations, _, list, _, _ =>
        ∀ f, .function f ∈ list → Statement.ShapedList f.body
    | _, _, _, _, _ => True

/-- The script gives a value that is as `P` says of it and of the next word. -/
def Script.Shapes {α : Type} (prog : Script α) (P : α → Bool → Prop) : Prop :=
  ∀ isElse, prog.Meets shaping isElse fun value after _ => P value after

namespace Script

variable {α β : Type} {P : α → Bool → Prop} {Q : β → Bool → Prop}

theorem shapes_true (prog : Script α) : prog.Shapes fun _ _ => True :=
  fun _ => Meets.of_forall ⟨fun _ _ => trivial, fun _ _ => trivial⟩ fun _ _ _ => trivial

namespace Shapes

theorem bind {prog : Script α} {next : α → Script β} (h : prog.Shapes P)
    (hnext : ∀ value after, P value after →
      (next value).Meets shaping after fun b last _ => Q b last) : (prog >>= next).Shapes Q :=
  fun isElse => Meets.bind (h isElse) fun value after _ hvalue => hnext value after hvalue

/-- What is read before does not matter. -/
theorem skip {prog : Script α} {next : α → Script β} (hnext : ∀ value, (next value).Shapes Q) :
    (prog >>= next).Shapes Q :=
  bind (shapes_true prog) fun value after _ => hnext value after

theorem pure {value : α} (h : ∀ isElse, P value isElse) : (Pure.pure value : Script α).Shapes P :=
  fun isElse => h isElse

theorem fail {error : ParseError} : (Script.fail error : Script α).Shapes P :=
  fun _ => trivial

theorem rule (f : Nonterminal) : (Script.rule f).Shapes fun result after =>
    ∃ before R, shaping.post f before result after R :=
  fun before => ⟨trivial, fun _ _ R h => ⟨before, R, h⟩⟩

theorem statement : (Script.rule .statement).Shapes Statement.ReadBefore :=
  fun isElse => Meets.mono (rule .statement isElse) fun _ _ _ ⟨_, _, h⟩ => h

theorem blockItems : (Script.rule .blockItems).Shapes fun items _ => Statement.ShapedList items :=
  fun isElse => Meets.mono (rule .blockItems isElse) fun _ _ _ ⟨_, _, h⟩ => h

/-- A statement at the right edge of another one. -/
theorem last {wrap : Statement → Statement} (hplaced : ∀ s, (wrap s).placed = s.placed)
    (hnearest : ∀ s, (wrap s).nearest = s.nearest)
    (hopen : ∀ s, (wrap s).openEnded = s.openEnded) :
    (Script.rule .statement >>= fun body => Pure.pure (wrap body)).Shapes Statement.ReadBefore := by
  refine statement.bind fun body isElse hbody => ?_
  refine ⟨⟨?_, ?_⟩, fun h => hbody.closed (hopen body ▸ h)⟩
  · exact (hplaced body).trans hbody.shaped.placed
  · exact (hnearest body).trans hbody.shaped.nearest

end Shapes

/-- If an `else` is looked for and not found, there is none. -/
theorem shapes_nextIs_else (isElse : Bool) :
    (Script.nextIs (.keyword .else)).Meets shaping isElse fun found after _ =>
      found = isElse ∧ after = isElse := by
  refine ⟨trivial, ?_⟩
  rintro token after ⟨rfl, hiff⟩
  refine ⟨?_, rfl⟩
  cases after with
  | true => simpa using hiff
  | false => simpa using hiff

theorem shapes_accept_else (isElse : Bool) :
    (Script.accept (.keyword .else)).Meets shaping isElse fun found after _ =>
      found = isElse ∧ (found = false → after = false) := by
  refine Meets.bind (shapes_nextIs_else isElse) ?_
  rintro found after R ⟨rfl, rfl⟩
  cases after with
  | true => exact Meets.bind (shapes_true Script.advance _) fun _ _ _ _ => ⟨rfl, nofun⟩
  | false => exact ⟨rfl, fun _ => rfl⟩

end Script

namespace Grammar

open Script

/-- What may follow the first branch of an `if`. -/
theorem shapes_else {position : Position} {condition : Expr} {body : Statement} {isElse : Bool}
    (hbody : body.ReadBefore isElse) :
    (do
      if ← accept (.keyword .else) then
        let otherwise ← Script.rule .statement
        return .if position condition body (some otherwise)
      else
        return .if position condition body none : Script Statement).Meets shaping isElse
      fun statement after _ => statement.ReadBefore after := by
  refine Meets.bind (shapes_accept_else isElse) ?_
  rintro found after R ⟨rfl, hafter⟩
  cases found with
  | true =>
      -- The `else` that is taken could not go into the statement before it.
      have hclosed : body.openEnded = false := by
        rw [Bool.eq_false_iff]
        exact fun hopen => absurd (hbody.closed hopen) nofun
      refine Shapes.bind Shapes.statement (fun otherwise last hotherwise => ?_) after
      refine ⟨hbody.shaped.of_if hclosed hotherwise.shaped, fun hopen => hotherwise.closed ?_⟩
      simpa [Statement.openEnded, Statement.openEndedElse] using hopen
  | false =>
      refine ⟨⟨?_, ?_⟩, fun _ => hafter rfl⟩
      · simpa [Statement.placed, Statement.placedOption] using hbody.shaped.placed
      · simpa [Statement.nearest, Statement.nearestElse] using hbody.shaped.nearest

theorem shapes_block : block.Shapes fun items _ => Statement.ShapedList items := by
  refine Shapes.skip fun _ => Shapes.skip fun _ => ?_
  refine Shapes.blockItems.bind fun items isElse hitems => ?_
  refine Shapes.skip (fun _ => Shapes.skip fun _ => ?_) isElse
  exact Shapes.pure fun _ => hitems

/-- Leaving the scope of a loop changes nothing about the next word. -/
theorem shapes_forLoop (position : Position) : (forLoop position).Shapes Statement.ReadBefore := by
  refine Shapes.skip fun _ => Shapes.skip fun _ => Shapes.skip fun start => ?_
  refine Shapes.skip fun condition => Shapes.skip fun _ => Shapes.skip fun step => ?_
  refine Shapes.skip fun _ => Shapes.statement.bind fun body isElse hbody => ?_
  refine ⟨trivial, ?_⟩
  rintro _ after rfl
  exact ⟨⟨hbody.shaped.placed, hbody.shaped.nearest⟩, hbody.closed⟩

theorem shapes_labelledStatement : labelledStatement.Shapes Statement.ReadBefore := by
  refine Shapes.skip fun token => ?_
  split
  · refine Shapes.skip fun value => Shapes.skip fun _ => ?_
    exact Shapes.last (fun _ => rfl) (fun _ => rfl) fun _ => rfl
  · refine Shapes.skip fun _ => ?_
    exact Shapes.last (fun _ => rfl) (fun _ => rfl) fun _ => rfl
  · refine Shapes.skip fun _ => ?_
    exact Shapes.last (fun _ => rfl) (fun _ => rfl) fun _ => rfl
  · exact Shapes.fail

theorem shapes_selectionStatement : selectionStatement.Shapes Statement.ReadBefore := by
  refine Shapes.skip fun token => Shapes.skip fun condition => ?_
  refine Shapes.statement.bind fun body isElse hbody => ?_
  split
  · exact shapes_else hbody
  · exact ⟨⟨hbody.shaped.placed, hbody.shaped.nearest⟩, hbody.closed⟩
  · exact Shapes.fail isElse

theorem shapes_iterationStatement : iterationStatement.Shapes Statement.ReadBefore := by
  refine Shapes.skip fun token => ?_
  split
  · refine Shapes.skip fun condition => ?_
    exact Shapes.last (fun _ => rfl) (fun _ => rfl) fun _ => rfl
  · refine Shapes.statement.bind fun body isElse hbody => ?_
    refine Shapes.skip (fun _ => Shapes.skip fun condition => Shapes.skip fun _ => ?_) isElse
    have hshaped : (Statement.doWhile token.position body condition).Shaped :=
      ⟨hbody.shaped.placed, hbody.shaped.nearest⟩
    exact Shapes.pure (hshaped.readBefore rfl)
  · exact shapes_forLoop token.position
  · exact Shapes.fail

/-- A jump has no statements in it. -/
theorem shapes_jumpFrom (token : Token) :
    (jumpFrom token).Shapes fun jump _ => jump.Shaped ∧ jump.openEnded = false := by
  unfold jumpFrom
  split
  · exact Shapes.skip fun name => Shapes.pure fun _ => ⟨⟨rfl, rfl⟩, rfl⟩
  · exact Shapes.pure fun _ => ⟨⟨rfl, rfl⟩, rfl⟩
  · exact Shapes.pure fun _ => ⟨⟨rfl, rfl⟩, rfl⟩
  · exact Shapes.skip fun value => Shapes.pure fun _ => ⟨⟨rfl, rfl⟩, rfl⟩
  · exact Shapes.fail

theorem shapes_jumpStatement : jumpStatement.Shapes Statement.ReadBefore := by
  refine Shapes.skip fun token => (shapes_jumpFrom token).bind fun jump isElse hjump => ?_
  exact Shapes.skip (fun _ => Shapes.pure (hjump.1.readBefore hjump.2)) isElse

theorem shapes_expressionStatement (position : Position) :
    (expressionStatement position).Shapes Statement.ReadBefore :=
  Shapes.skip fun _ => Shapes.skip fun _ => Shapes.pure (Statement.Shaped.readBefore ⟨rfl, rfl⟩ rfl)

theorem shapes_statement : statement.Shapes Statement.ReadBefore := by
  refine Shapes.skip fun token => ?_
  split
  · refine shapes_block.bind fun items isElse hitems => ?_
    have hshaped : (Statement.block token.position items).Shaped :=
      ⟨hitems.placed, hitems.nearest⟩
    exact hshaped.readBefore rfl isElse
  · exact Shapes.skip fun _ => Shapes.pure (Statement.Shaped.readBefore ⟨rfl, rfl⟩ rfl)
  · split
    · exact shapes_selectionStatement
    · exact shapes_iterationStatement
    · exact shapes_jumpStatement
    · exact shapes_labelledStatement
    · exact shapes_expressionStatement token.position
  · refine Shapes.skip fun second => ?_
    split
    · exact shapes_labelledStatement
    · exact shapes_expressionStatement token.position
  · exact shapes_expressionStatement token.position

theorem shapes_blockItem (token : Token) : (blockItem token).Shapes fun item _ =>
    item.isDeclaration = true ∨ item.Shaped := by
  unfold blockItem
  split
  · exact Shapes.skip fun group => Shapes.pure fun _ => Or.inl rfl
  · exact fun isElse => Meets.mono (shapes_statement isElse) fun _ _ _ h => Or.inr h.shaped

theorem shapes_blockItems : blockItems.Shapes fun items _ => Statement.ShapedList items := by
  refine Shapes.skip fun token => ?_
  split
  · exact Shapes.pure fun _ => .nil
  · exact Shapes.fail
  · refine (shapes_blockItem token).bind fun first isElse hfirst => ?_
    refine Shapes.bind Shapes.blockItems (fun others last hothers => ?_) isElse
    exact hothers.cons hfirst

theorem shapes_functionDefinition (specifiers : Specifiers) (d : Declarator) :
    (functionDefinition specifiers d).Shapes fun f _ => Statement.ShapedList f.body := by
  unfold functionDefinition
  split
  · exact Shapes.fail
  · split
    · exact Shapes.fail
    · split
      · exact Shapes.fail
      · refine Shapes.skip fun _ => Shapes.skip fun _ => Shapes.skip fun _ => Shapes.skip fun _ => ?_
        refine Shapes.blockItems.bind fun body isElse hbody => ?_
        exact Shapes.skip (fun _ => Shapes.skip fun _ => Shapes.pure fun _ => hbody) isElse

theorem shapes_externalDeclaration : externalDeclaration.Shapes fun e _ =>
    ∀ f, e = .function f → Statement.ShapedList f.body := by
  refine Shapes.skip fun specifiers => Shapes.skip fun bare => ?_
  split
  · exact Shapes.pure fun _ => nofun
  · refine Shapes.skip fun d => ?_
    split
    · refine Shapes.skip fun opens => ?_
      split
      · refine (shapes_functionDefinition specifiers d).bind fun f isElse hbody => ?_
        rintro f' heq
        cases heq
        exact hbody
      · exact Shapes.skip fun group => Shapes.pure fun _ => nofun
    · exact Shapes.skip fun group => Shapes.pure fun _ => nofun

theorem shapes_externalDeclarations : externalDeclarations.Shapes fun list _ =>
    ∀ f, .function f ∈ list → Statement.ShapedList f.body := by
  refine Shapes.skip fun token => ?_
  split
  · exact Shapes.pure fun _ => nofun
  · refine shapes_externalDeclaration.bind fun first isElse hfirst => ?_
    refine Meets.bind (Shapes.rule .externalDeclarations isElse) ?_
    rintro others after R ⟨_, _, hothers⟩
    intro f hmem
    rcases List.mem_cons.1 hmem with heq | hmem
    · exact hfirst f heq.symm
    · exact hothers f hmem

end Grammar

theorem valid_shaping : shaping.Valid := by
  intro f isElse _
  cases f with
  | statement => exact Script.Meets.mono (Grammar.shapes_statement isElse) fun _ _ _ h => h
  | blockItems => exact Script.Meets.mono (Grammar.shapes_blockItems isElse) fun _ _ _ h => h
  | externalDeclarations =>
      exact Script.Meets.mono (Grammar.shapes_externalDeclarations isElse) fun _ _ _ h => h
  | _ => exact Script.shapes_true _ isElse

/-! ## Units that are parsed -/

/-- A token that can be had is the word `else` if the next lexeme is. -/
theorem View.facesElse_iff {v : View} {token : Token} (hfree : v.table.KeywordFree)
    (h : v.token? 0 = some token) : v.facesElse = true ↔ token.kind = .keyword .else := by
  unfold View.token? at h
  unfold View.facesElse
  cases hahead : v.ahead with
  | nil =>
      rw [hahead] at h
      obtain ⟨position, -, rfl⟩ := Option.map_eq_some_iff.1 h
      simp
  | cons piece others =>
      rw [hahead] at h
      obtain rfl := Option.some_inj.1 h
      have hlexeme : (v.kind piece).lexeme = piece.lexeme := SymbolTable.lexeme_classify _ _
      simp only [List.head?_cons, Option.any_some, decide_eq_true_eq, View.kind_next]
      constructor
      · intro hword
        have hkind := View.kind_of_keyword hfree .else piece.position
        rwa [← hword] at hkind
      · intro hkind
        rw [← hlexeme, hkind]
        rfl

namespace Parser

variable {text : String} {file : Option String}

theorem models_shaping (text : String) (file : Option String) :
    shaping.Models (fun s => s.view.facesElse) (fun _ => True) (events text file) := by
  intro r s hmem _ _ answer t hperform
  refine ⟨trivial, ?_⟩
  have hlawful := lawful_events text file r s hmem
  have hview := Request.view_perform hlawful.sound hlawful.marks
  rw [hperform] at hview
  cases r with
  | peek n =>
      cases n with
      | zero =>
          obtain ⟨token, htoken, heq⟩ := Option.map_eq_some_iff.1 hview.symm
          obtain ⟨rfl, hsame⟩ := Prod.mk.inj heq
          exact ⟨congrArg View.facesElse hsame.symm, View.facesElse_iff hlawful.sound.table htoken⟩
      | succ n => trivial
  | leave position =>
      obtain ⟨outer, -, heq⟩ := Option.map_eq_some_iff.1 hview.symm
      have hsame : t.view = { s.view with table := outer } := (Prod.mk.inj heq).2.symm
      exact (congrArg View.facesElse hsame :)
  | _ => trivial

/-- In the bodies of functions that are parsed, declarations are items of blocks or begin loops, and
every `else` belongs to the nearest `if`. -/
theorem shapedList_of_parse {unit : TranslationUnit} (h : parse text file = .ok unit) :
    ∀ f ∈ unit.functions, Statement.ShapedList f.body := by
  obtain ⟨t, hrun⟩ := runUnit_of_parse h
  have hpost := (Contract.sound valid_shaping trivial trivial (models_shaping text file)).2
    unit.declarations t hrun
  intro f hf
  obtain ⟨e, he, hfunction⟩ := List.mem_filterMap.1 hf
  cases e with
  | declaration group => cases hfunction
  | function definition =>
      cases hfunction
      exact hpost.2 f he

end Parser

end CSyntax
