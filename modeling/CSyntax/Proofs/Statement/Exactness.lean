import CSyntax.Proofs.Lockstep.Units
import CSyntax.Proofs.Statement.Roundtrip

/-!
# Exactness — bodies of functions

Statements are written and read in exactly one shape.  Written in it, the items of a body are read
back, where a parser stands in front of them and in a whole text with the function around them; and
all bodies of parsed functions have it (`Parser.statements_exact`).
-/

namespace CSyntax

open Script Grammar

/-! ## What is read on its own -/

section

variable {T : SymbolTable} {pieces : List Piece} {marks : List Punctuator}

/-- What the grammar of expressions derives before a mark that closes an expression. -/
theorem Derives.spells {p : Precedence} {value : Expr} (fault : ParseError) (hfree : T.KeywordFree)
    (hmarks : ∀ mark ∈ marks, (TokenKind.punctuator mark).closes = true)
    (h : ∀ mark ∈ marks, ∀ piece : Piece, piece.lexeme = .punctuator mark →
      Derives TokenKind.startsTypeName (.alone T [] fault) (.level p) (pieces ++ [piece]) value
        [piece]) :
    (expression p).Spells marks T pieces (Alike Expr.erase value) T := by
  intro mark hmark piece hpiece
  refine ⟨value, fault, .refl value, ?_⟩
  refine (h mark hmark piece hpiece).takes rfl hfree (View.begins_cons.2 ?_)
  rw [View.kind_of_mark hpiece]
  exact hmarks mark hmark

/-- What the notation of declarators writes around a name. -/
theorem Written.spells {type base : CType} {name : String} {place : Position} (fault : ParseError)
    (hfree : T.KeywordFree)
    (h : Written (View.alone T [] fault).kind (.declarator (some (name, place)) type base)
      pieces) :
    (Grammar.declarator .named).Spells [.comma, .semicolon] T pieces
      (fun d => d.Declares base name type) T := by
  obtain ⟨modifiers, rfl, hread⟩ := h.read.takes_declarator
  intro mark hmark piece hpiece
  refine ⟨{ name := some (name, place), modifiers := modifiers }, fault, ⟨rfl, rfl⟩, ?_⟩
  refine hread (.alone T [] fault) .named [piece] rfl hfree rfl (by simp) (View.begins_cons.2 ?_)
  rw [View.kind_of_mark hpiece]
  rcases List.mem_cons.1 hmark with rfl | hmark
  · rfl
  · obtain rfl := List.mem_singleton.1 hmark
    rfl

end

/-! ## Functions around statements -/

/-- What stands in front of the body of a function without parameters and without a result. -/
def Lexeme.procedure (name : String) : List Lexeme :=
  [.keyword .void, .word name, .punctuator .openParen, .keyword .void, .punctuator .closeParen,
    .punctuator .openBrace]

/-- The table where the body of the function begins. -/
def SymbolTable.inside (name : String) : SymbolTable :=
  (SymbolTable.empty.declare name .ordinary).enter .block

theorem SymbolTable.ready_inside {name : String} (hname : Unreserved name) :
    (inside name).Ready where
  keywordFree := (keywordFree_empty.declare hname .ordinary).enter .block
  inBlock := rfl

section

variable {v : View} {T U : SymbolTable} {name : String} {word void opening closing : Piece}
  {pieces front after : List Piece} {items : List Statement}

/-- A declarator of a function that has no parameters, before a body. -/
theorem takes_declarator_procedure (hv : v.taken = none) (hword : v.kind word = .identifier name)
    (hopening : v.kind opening = .punctuator .openParen) (hvoid : v.kind void = .keyword .void)
    (hclosing : v.kind closing = .punctuator .closeParen)
    (hafter : v.Begins (fun kind => kind = .punctuator .openBrace) after) :
    (Grammar.declarator .named).Takes (v.facing (word :: opening :: void :: closing :: after))
      { name := some (name, word.position), modifiers := [.function [] false] }
      (v.facing after) := by
  have hpointers : pointers.Takes (v.facing (word :: opening :: void :: closing :: after)) 0
      (v.facing (word :: opening :: void :: closing :: after)) :=
    (Takes.accept_not (by simp [hword])).bind Takes.pure
  have hdone : suffixes.Takes (v.facing after) [] (v.facing after) := by
    obtain ⟨brace, rest, rfl, hbrace⟩ := hafter
    exact (Takes.accept_not (by simp [hbrace])).bind
      ((Takes.accept_not (by simp [hbrace])).bind Takes.pure)
  have hsuffixes := takes_suffixes_function hv hopening (takes_parameterList_void hv hvoid hclosing)
    hdone
  exact hpointers.bind ((takes_declaratorCore_name hv (Or.inl hword)).bind
    (hsuffixes.bind Takes.pure))

/-- The function and its body, from the opening brace on. -/
theorem reads_functionDefinition {specifiers : Specifiers} {brace : Piece} (place : Position)
    (htypedef : specifiers.isTypedef = false) (hbrace : brace.lexeme = .punctuator .openBrace)
    (hitems : Statement.ListReturns items ((T.declare name .ordinary).enter .block) pieces U)
    (hclosing : closing.lexeme = .punctuator .closeBrace)
    (hleave : U.leave? = some (T.declare name .ordinary)) :
    (functionDefinition specifiers
      { name := some (name, place), modifiers := [.function [] false] }).Reads T
      (brace :: (pieces ++ [closing]))
      (fun f => f.name = name ∧ Alike (List.map Statement.erase) items f.body)
      (T.declare name .ordinary) fun _ => True := by
  obtain ⟨base, storage, isTypedef, qualifiers, position⟩ := specifiers
  obtain rfl : isTypedef = false := htypedef
  refine (Reads.declare name .ordinary).step fun _ _ => ?_
  refine (Reads.expect (SymbolTable.classify_of_mark hbrace)).cons fun _ _ => ?_
  refine (Reads.enter .block).step fun _ _ => ?_
  refine (Reads.pure (P := fun _ => True) trivial).step fun _ _ => ?_
  refine (Reads.rule (f := .blockItems) hitems).bind (fun items' halikes => ?_)
    fun _ _ => Piece.EndsWith.cons (List.mem_singleton_self _) hclosing
  refine (Reads.expect (SymbolTable.classify_of_mark hclosing)).cons fun token _ => ?_
  exact (Reads.leave token.position hleave).step fun _ _ => Reads.pure ⟨rfl, halikes⟩

/-- A function whose body comes back comes back. -/
theorem takes_externalDeclaration_procedure (hname : Unreserved name) (hv : v.taken = none)
    (hempty : v.table = .empty) (hfront : front.map (·.lexeme) = Lexeme.procedure name)
    (hitems : Statement.ListReturns items (.inside name) pieces U)
    (hclosing : closing.lexeme = .punctuator .closeBrace)
    (hleave : U.leave? = some (SymbolTable.empty.declare name .ordinary)) :
    ∃ f : FunctionDefinition, f.name = name ∧ Alike (List.map Statement.erase) items f.body ∧
      externalDeclaration.Takes (v.facing (front ++ (pieces ++ [closing]))) (.function f)
        ((v.under (SymbolTable.empty.declare name .ordinary)).facing []) := by
  obtain ⟨first, word, opening, void, closed, brace, rfl, hfirst, hword, hopening, hvoid, hclosed,
      hbrace⟩ : ∃ p₁ p₂ p₃ p₄ p₅ p₆, front = [p₁, p₂, p₃, p₄, p₅, p₆] ∧
        p₁.lexeme = .keyword .void ∧ p₂.lexeme = .word name ∧
        p₃.lexeme = .punctuator .openParen ∧ p₄.lexeme = .keyword .void ∧
        p₅.lexeme = .punctuator .closeParen ∧ p₆.lexeme = .punctuator .openBrace := by
    simpa [Lexeme.procedure, List.map_eq_cons_iff] using hfront
  have hfree : v.table.KeywordFree := hempty ▸ SymbolTable.keywordFree_empty
  have hwordKind : v.kind word = .identifier name := by
    rw [View.kind, hword, hempty]
    exact SymbolTable.classify_eq_identifier.2 ⟨rfl, rfl, hname⟩
  have hvoids : ∀ {piece : Piece}, piece.lexeme = .keyword .void → v.kind piece = .keyword .void :=
    fun h => View.kind_of_word hfree h
  -- The specifiers end at the word, which is no keyword.
  have hbase : Based v.kind (.named (ArithmeticType.spell [.void])) [first] :=
    .arithmetic (show [Keyword.void] ∈ _ by decide) (by simp [hvoids hfirst])
  have hends : v.EndsSpecifiers
      (word :: opening :: void :: closed :: brace :: (pieces ++ [closing])) :=
    View.endsSpecifiers_of_opensCore (Or.inl (by rw [hwordKind]; rfl))
  obtain ⟨first', others, heq, hspecifiers⟩ := hbase.takes hv hends
  obtain ⟨rfl, rfl⟩ := List.cons.inj heq
  have hdeclarator := takes_declarator_procedure hv hwordKind (View.kind_of_mark hopening)
    (hvoids hvoid) (View.kind_of_mark hclosed)
    ⟨brace, pieces ++ [closing], rfl, View.kind_of_mark hbrace⟩
  have hplain : (Specifiers.plain (.named (ArithmeticType.spell [.void]))
      first.position).isTypedef = false := rfl
  obtain ⟨f, ⟨hsame, halikes⟩, hfunction⟩ := reads_functionDefinition word.position hplain hbrace
    hitems hclosing hleave v [] hv hempty trivial
  refine ⟨f, hsame, halikes, hspecifiers.bind ?_⟩
  refine (Takes.accept_not (by simp [hwordKind])).bind (hdeclarator.bind ?_)
  refine Takes.nextIs.bind ?_
  rw [if_pos (by simpa using View.kind_of_mark hbrace)]
  refine Takes.bind ?_ Takes.pure
  simpa using hfunction

end

/-! ## Texts and bodies -/

/-- A unit that is a function, up to positions, is a function. -/
theorem ExternalDeclaration.exists_function_of_alike {f : FunctionDefinition}
    {list : List ExternalDeclaration}
    (h : Alike (List.map ExternalDeclaration.erase) [.function f] list) :
    ∃ f', list = [.function f'] ∧ f.erase = f'.erase := by
  obtain ⟨e, rfl⟩ := List.length_eq_one_iff.1 (by simpa using (congrArg List.length h).symm)
  cases e with
  | declaration group => cases (List.cons.inj h).1
  | function f' => exact ⟨f', rfl, ExternalDeclaration.function.inj (List.cons.inj h).1⟩

namespace Parser

variable {text : String} {file : Option String} {name : String} {closing : Piece} {p : Position}
  {front pieces : List Piece} {items : List Statement} {U : SymbolTable}

/-- A text with nothing but a function in it is parsed if the body comes back. -/
theorem parse_of_written (hname : Unreserved name)
    (htext : (Source.ofString text file).outlook =
      { pieces := front ++ (pieces ++ [closing]), ending := .ok p })
    (hfront : front.map (·.lexeme) = Lexeme.procedure name)
    (hclosing : closing.lexeme = .punctuator .closeBrace)
    (hwritten : Passage.Written (.inside name) (.items items) pieces U)
    (hshaped : Statement.ShapedList items) :
    ∃ f : FunctionDefinition, parse text file = .ok { declarations := [.function f] } ∧
      f.name = name ∧ Alike (List.map Statement.erase) items f.body := by
  have hready := SymbolTable.ready_inside hname
  let v : View := (ParserState.ofSource (.ofString text file)).view
  have hview : v.facing (front ++ (pieces ++ [closing])) = v := by
    have hahead : v.ahead = front ++ (pieces ++ [closing]) := congrArg Outlook.pieces htext
    rw [← hahead]
    rfl
  obtain ⟨f, hsame, halikes, hfunction⟩ := takes_externalDeclaration_procedure (v := v) hname rfl rfl
    hfront (hwritten.readsBack hready hshaped) hclosing (hwritten.follows hready).frame.leave_block
  have hend : externalDeclarations.Takes
      ((v.under (SymbolTable.empty.declare name .ordinary)).facing []) []
      ((v.under (SymbolTable.empty.declare name .ordinary)).facing []) := by
    have hending : v.ending = .ok p := congrArg Outlook.ending htext
    have hlast : ((v.under (SymbolTable.empty.declare name .ordinary)).facing []).token? 0 =
        some ⟨.endOfFile, p⟩ := by
      simp [View.token?, View.facing, View.under, hending, Except.toOption]
    exact takes_externalDeclarations_nil hlast rfl
  have hunit : externalDeclarations.Takes v [.function f]
      ((v.under (SymbolTable.empty.declare name .ordinary)).facing []) := by
    cases front with
    | nil => cases hfront
    | cons first rest =>
        have hvoid : first.lexeme = .keyword .void := (List.cons.inj hfront).1
        rw [← hview]
        exact takes_externalDeclarations_cons (hvoid ▸ Lexeme.noConfusion) hfunction hend
  obtain ⟨t, hyields, -⟩ := yields_of_takes (f := .externalDeclarations)
    (ParserState.sound_ofSource (.ofString text file)) rfl hunit
  obtain ⟨list, hparse, hlist⟩ := parse_of_yields hyields
  obtain ⟨f', rfl, hf⟩ := ExternalDeclaration.exists_function_of_alike hlist
  refine ⟨f', hparse, ?_, halikes.trans ?_⟩
  · rw [← hsame]
    exact (congrArg FunctionDefinition.name hf).symm
  · exact congrArg FunctionDefinition.body hf

/-- Statements are written and read in one shape.  Items of a body that have it are read back where a
parser stands in front of them, and in a text with a function around them.  The bodies of all
functions that are parsed have it. -/
theorem statements_exact :
    (∀ (origin : Source) (s : ParserState) items pieces after U, s.Sound origin →
      s.isMarked = false → s.table.InBlock → Passage.Written s.table (.items items) pieces U →
      Statement.ShapedList items → Piece.EndsWith [.closeBrace] after →
      s.view.ahead = pieces ++ after →
        ∃ items' t, Yields .blockItems s items' t ∧ Alike (List.map Statement.erase) items items' ∧
          t.view = (s.view.under U).facing after) ∧
    (∀ text file name items front pieces closing p U, Unreserved name →
      front.map (·.lexeme) = Lexeme.procedure name → closing.lexeme = .punctuator .closeBrace →
      Passage.Written (.inside name) (.items items) pieces U → Statement.ShapedList items →
      (Source.ofString text file).outlook =
        { pieces := front ++ (pieces ++ [closing]), ending := .ok p } →
        ∃ f : FunctionDefinition, parse text file = .ok { declarations := [.function f] } ∧
          f.name = name ∧ Alike (List.map Statement.erase) items f.body) ∧
    (∀ text file unit, parse text file = .ok unit →
      ∀ f ∈ unit.functions, Statement.ShapedList f.body) := by
  refine ⟨?_, ?_, fun _ _ _ => shapedList_of_parse⟩
  · intro origin s items pieces after U h hm hblock hwritten hshaped hafter hahead
    obtain ⟨items', halikes, htakes⟩ := hwritten.readsBack ⟨h.table, hblock⟩ hshaped s.view after
      (ParserState.taken_view hm) rfl hafter
    rw [← hahead] at htakes
    obtain ⟨t, hyields, ht⟩ := yields_of_takes (f := .blockItems) h hm htakes
    exact ⟨items', t, hyields, halikes, ht⟩
  · intro text file name items front pieces closing p U hname hfront hclosing hwritten hshaped htext
    exact parse_of_written hname htext hfront hclosing hwritten hshaped

theorem Outlook.eq_of_parts {o : Outlook} {pieces : List Piece} {ending : Except ParseError Position}
    (h : (o.pieces, o.ending) = (pieces, ending)) : o = { pieces := pieces, ending := ending } := by
  cases o
  simpa using h

/-- An `if` without an `else` around a loop around one that has it: the `else` goes to the inner. -/
def danglingText : String :=
  "void f(void){int i;if(i)while(i)if(i)i=1;else i=2;}"

def danglingFront : List Piece :=
  [⟨.word "void", column 0⟩, ⟨.word "f", column 5⟩, ⟨.punctuator .openParen, column 6⟩,
    ⟨.word "void", column 7⟩, ⟨.punctuator .closeParen, column 11⟩,
    ⟨.punctuator .openBrace, column 12⟩]

def danglingBody : List Piece :=
  [⟨.word "int", column 13⟩, ⟨.word "i", column 17⟩, ⟨.punctuator .semicolon, column 18⟩,
    ⟨.word "if", column 19⟩, ⟨.punctuator .openParen, column 21⟩, ⟨.word "i", column 22⟩,
    ⟨.punctuator .closeParen, column 23⟩, ⟨.word "while", column 24⟩,
    ⟨.punctuator .openParen, column 29⟩, ⟨.word "i", column 30⟩,
    ⟨.punctuator .closeParen, column 31⟩, ⟨.word "if", column 32⟩,
    ⟨.punctuator .openParen, column 34⟩, ⟨.word "i", column 35⟩,
    ⟨.punctuator .closeParen, column 36⟩, ⟨.word "i", column 37⟩, ⟨.punctuator .assign, column 38⟩,
    ⟨.integer 1, column 39⟩, ⟨.punctuator .semicolon, column 40⟩, ⟨.word "else", column 41⟩,
    ⟨.word "i", column 46⟩, ⟨.punctuator .assign, column 47⟩, ⟨.integer 2, column 48⟩,
    ⟨.punctuator .semicolon, column 49⟩]

def danglingBrace : Piece :=
  ⟨.punctuator .closeBrace, column 50⟩

/-- The table behind the declaration in the body. -/
def danglingTable : SymbolTable :=
  (SymbolTable.inside "f").declare "i" .ordinary

def danglingName (n : Nat) : Expr :=
  .identifier (column n) "i"

def danglingAssignment (n : Nat) (value : UInt64) : Statement :=
  .expression (column n) (.assign (column n) none (danglingName n) (.integer (column (n + 2)) value))

def danglingGroup : DeclarationGroup where
  base := .named "int"
  declarations := [.plain "i" (.named "int") (column 17)]
  position := column 13

def danglingItems : List Statement :=
  [.declaration (column 13) danglingGroup,
    .if (column 19) (danglingName 22)
      (.while (column 24) (danglingName 30)
        (.if (column 32) (danglingName 35) (danglingAssignment 37 1)
          (some (danglingAssignment 46 2))))
      none]

theorem unreserved_dangling : Unreserved "f" ∧ Unreserved "i" := by
  unfold Unreserved
  decide

theorem keywordFree_dangling : danglingTable.KeywordFree :=
  (SymbolTable.ready_inside unreserved_dangling.1).keywordFree.declare unreserved_dangling.2 .ordinary

theorem derives_danglingName (fault : ParseError) (n : Nat) (after : List Piece) :
    Derives TokenKind.startsTypeName (.alone danglingTable [] fault) (.level .unary)
      (⟨.word "i", column n⟩ :: after) (danglingName n) after :=
  .operand (.postfixed (.primary (.identifier
    (show danglingTable.classify (.word "i") = .identifier "i" by decide +kernel))))

theorem written_danglingAssignment (n : Nat) (value : UInt64) :
    Passage.Written danglingTable (.statement (danglingAssignment n value))
      [⟨.word "i", column n⟩, ⟨.punctuator .assign, column (n + 1)⟩, ⟨.integer value, column (n + 2)⟩,
        ⟨.punctuator .semicolon, column (n + 3)⟩] danglingTable := by
  let fault : ParseError := .atPosition .erased (.internal .tooDeep)
  have hspelled : Expr.Spelled
      (.assign (column n) none (danglingName n) (.integer (column (n + 2)) value)) [.semicolon]
      danglingTable [⟨.word "i", column n⟩, ⟨.punctuator .assign, column (n + 1)⟩,
        ⟨.integer value, column (n + 2)⟩] danglingTable := by
    refine Derives.spells fault keywordFree_dangling (by decide) fun _ _ piece _ => ?_
    have hvalue : Derives TokenKind.startsTypeName (.alone danglingTable [] fault) (.level .unary)
        [⟨.integer value, column (n + 2)⟩, piece] (.integer (column (n + 2)) value) [piece] :=
      .operand (.postfixed (.primary (.integer rfl)))
    exact .tighter (.assign ((derives_danglingName fault n _).loosen (by decide)) rfl
      (show (Punctuator.assign, none) ∈ _ by decide) (hvalue.loosen (by decide)))
  exact .expression hspelled rfl

/-- The declaration leads to the table in which the names are looked up. -/
theorem written_danglingGroup :
    DeclarationGroup.Written (.inside "f") danglingGroup
      [⟨.word "int", column 13⟩, ⟨.word "i", column 17⟩, ⟨.punctuator .semicolon, column 18⟩]
      danglingTable := by
  have hspecified : Specified (.plain (.named "int") (column 13)) [⟨.word "int", column 13⟩] []
      [.int] :=
    { spelled := rfl
      modifiers := ⟨by decide, by decide⟩
      arithmetic := by decide
      base := congrArg CType.named (by decide +kernel)
      storage := rfl
      isTypedef := rfl
      qualifiers := rfl }
  have hdeclarator : Declaration.Spelled (.plain (.named "int") (column 13))
      (.plain "i" (.named "int") (column 17)) [.comma, .semicolon] (.inside "f")
      [⟨.word "i", column 17⟩] (.inside "f") :=
    Written.spells (.atPosition .erased (.internal .tooDeep))
      (SymbolTable.ready_inside unreserved_dangling.1).keywordFree
      (.core (.name (Or.inl (show (SymbolTable.inside "f").classify (.word "i") = .identifier "i" by
        decide +kernel))))
  exact .declares hspecified (.last (.bare ⟨rfl, rfl, rfl⟩ hdeclarator rfl)) rfl

theorem written_dangling :
    Passage.Written (.inside "f") (.items danglingItems) danglingBody danglingTable := by
  have hcondition : ∀ n, (danglingName n).Spelled [.closeParen] danglingTable
      [⟨.word "i", column n⟩] danglingTable := by
    intro n
    refine Derives.spells (.atPosition .erased (.internal .tooDeep)) keywordFree_dangling
      (by decide) fun _ _ piece _ => ?_
    exact (derives_danglingName _ n [piece]).loosen (by decide)
  have hword : ∀ (word : Keyword) n,
      (Piece.mk (.keyword word) (column n)).lexeme = .keyword word := fun _ _ => rfl
  have hmark : ∀ (mark : Punctuator) n,
      (Piece.mk (.punctuator mark) (column n)).lexeme = .punctuator mark := fun _ _ => rfl
  have hinner : Passage.Written danglingTable
      (.statement (.if (column 32) (danglingName 35) (danglingAssignment 37 1)
        (some (danglingAssignment 46 2)))) _ danglingTable :=
    .ifElse (hword .if 32) (hmark .openParen 34) (hcondition 35) (hmark .closeParen 36)
      (written_danglingAssignment 37 1) (hword .else 41) (written_danglingAssignment 46 2)
  have hloop : Passage.Written danglingTable (.statement (.while (column 24) (danglingName 30) _)) _
      danglingTable :=
    .while (hword .while 24) (hmark .openParen 29) (hcondition 30) (hmark .closeParen 31) hinner
  have houter : Passage.Written danglingTable
      (.statement (.if (column 19) (danglingName 22) _ none)) _ danglingTable :=
    .ifOnly (hword .if 19) (hmark .openParen 21) (hcondition 22) (hmark .closeParen 23) hloop
  exact .cons (.declaration written_danglingGroup) (.cons houter .nil)

theorem statements_exact_dangling :
    ∃ f : FunctionDefinition, parse danglingText none = .ok { declarations := [.function f] } ∧
      f.name = "f" ∧ Alike (List.map Statement.erase) danglingItems f.body := by
  have hparts : ((Source.ofString danglingText none).outlook.pieces,
      (Source.ofString danglingText none).outlook.ending) =
        (danglingFront ++ (danglingBody ++ [danglingBrace]), .ok (column 51)) := by
    decide +kernel
  exact statements_exact.2.1 danglingText none "f" danglingItems danglingFront danglingBody
    danglingBrace (column 51) danglingTable unreserved_dangling.1 rfl rfl written_dangling
    ⟨by decide, by decide⟩ (Outlook.eq_of_parts hparts)

end Parser

end CSyntax
