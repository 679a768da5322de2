import CSyntax.Proofs.Run.Inversion
import CSyntax.Proofs.Run.Reads

/-!
# Barring — lexemes that nothing completes

A member has no storage class, but the rule for members takes one along with the other specifiers and
refuses it when they are complete, at the first of them.  From the storage class to the end of the
specifiers there is nothing that could complete the text, and a token refused there is refused too
late.  This file says where that is:

* `Script.Arrives` — carried out on a view, a script comes to another one;
* `Grammar.Gathers` — what specifiers have been read, as they are read one by one;
* `Script.Barred` — a member declaration is arrived at, and a storage class gathered there;

and shows that a barred script takes nothing, whatever stands behind the lexemes
(`Script.Barred.not_takes`).
-/

namespace CSyntax

/-! ## Scripts on the way -/

/-- Carrying the script out on the view comes to another script, which is begun at another view. -/
inductive Script.Arrives {γ : Type} (goal : Script γ) (w : View) :
    {α : Type} → Script α → View → Prop
  | self : Arrives goal w goal w
  /-- The goal lies in the script that comes first. -/
  | front {α β : Type} {prog : Script α} {next : α → Script β} {v : View} :
      Arrives goal w prog v → Arrives goal w (prog >>= next) v
  /-- The first script gives a value, and the goal lies in what comes behind it. -/
  | rest {α β : Type} {prog : Script α} {next : α → Script β} {v u : View} {a : α} :
      prog.Takes v a u → Arrives goal w (next a) u → Arrives goal w (prog >>= next) v
  /-- The goal lies in a rule that is called. -/
  | call {f : Nonterminal} {v : View} :
      Arrives goal w (Grammar.script f) v → Arrives goal w (.rule f) v

namespace Script

variable {α β γ : Type} {goal : Script γ} {prog : Script α} {v w : View}

namespace Arrives

/-- A script that is carried out to its end carries out all that it comes to. -/
theorem exists_takes (h : Arrives goal w prog v) {a : α} {x : View} (htakes : prog.Takes v a x) :
    ∃ b y, goal.Takes w b y := by
  induction h generalizing x with
  | self => exact ⟨a, x, htakes⟩
  | front _ ih =>
      obtain ⟨_, _, hprog, -⟩ := htakes.exists_bind
      exact ih hprog
  | rest hfirst _ ih =>
      obtain ⟨_, _, hprog, hnext⟩ := htakes.exists_bind
      obtain ⟨rfl, rfl⟩ := hfirst.unique hprog
      exact ih hnext
  | call _ ih => exact ih htakes.of_rule

theorem extend (h : Arrives goal w prog v) (hend : v.ending.toOption = none) (after : List Piece)
    (ending : Except ParseError Position) :
    w.ending.toOption = none ∧
      Arrives goal (w.extend after ending) prog (v.extend after ending) := by
  induction h with
  | self => exact ⟨hend, .self⟩
  | front _ ih => exact ⟨(ih hend).1, .front (ih hend).2⟩
  | rest hfirst _ ih =>
      have hlater := ih (hfirst.ending_eq ▸ hend)
      exact ⟨hlater.1, .rest (hfirst.extend hend after ending) hlater.2⟩
  | call _ ih => exact ⟨(ih hend).1, .call (ih hend).2⟩

end Arrives
end Script

/-! ## Specifiers one by one -/

/-- From the first tally on, specifiers are read off the view, one behind the other, up to the
second tally. -/
inductive Grammar.Gathers : SpecifierTally → View → SpecifierTally → Prop
  | refl {tally : SpecifierTally} {v : View} : Gathers tally v tally
  | step {tally next last : SpecifierTally} {v w : View} :
      (specifier tally).Takes v (some next) w → Gathers next w last → Gathers tally v last

namespace Grammar

open Script

variable {tally last result : SpecifierTally} {v w : View}

theorem Gathers.extend (h : Gathers tally v last) (hend : v.ending.toOption = none)
    (after : List Piece) (ending : Except ParseError Position) :
    Gathers tally (v.extend after ending) last := by
  induction h with
  | refl => exact .refl
  | step hfirst _ ih => exact .step (hfirst.extend hend after ending) (ih (hfirst.ending_eq ▸ hend))

/-- What one specifier makes of a tally: a storage class or a qualifier is added, a word joins those
of an arithmetic type, or the one type comes in that is no arithmetic type. -/
inductive Joins (tally : SpecifierTally) : SpecifierTally → Prop
  | modifier (word : Keyword) : Joins tally (tally.addModifier word)
  | word {words : List Keyword} : tally.other = none →
      (ArithmeticType.canonical? words).isSome = true → Joins tally { tally with words := words }
  | type (type : CType) : Joins tally { tally with other := some type }

theorem joins_of_typeWord {token : Token} {word : Keyword} {next : SpecifierTally}
    (h : (typeWord tally token word).Takes v next w) : Joins tally next := by
  obtain ⟨depth, hread⟩ := h
  unfold typeWord at hread
  split at hread
  · cases hread
  · rename_i hother
    obtain ⟨_, _, -, hread⟩ := bind_of_read hread
    split at hread
    · split at hread
      · rename_i hcanonical
        obtain ⟨rfl, rfl⟩ := pure_of_read hread
        exact .word (by simpa using hother) hcanonical
      · cases hread
    · cases hread

theorem joins_of_taggedType {token : Token} {word : Keyword} {next : SpecifierTally}
    (h : (taggedType tally token word).Takes v next w) : Joins tally next := by
  obtain ⟨depth, hread⟩ := h
  unfold taggedType at hread
  split at hread
  · cases hread
  · split at hread
    all_goals
      obtain ⟨type, _, -, hpure⟩ := bind_of_read hread
      obtain ⟨rfl, -⟩ := pure_of_read hpure
      exact .type type

/-- A specifier joins the tally; if there is none, a token has been looked at that is none. -/
theorem joins_of_specifier {found : Option SpecifierTally} (h : (specifier tally).Takes v found w) :
    (∀ next ∈ found, Joins tally next) ∧ (found = none → w = v ∧ (v.token? 0).isSome = true) := by
  obtain ⟨depth, hread⟩ := h
  obtain ⟨token, u, hpeek, hnext⟩ := bind_of_read hread
  obtain ⟨rfl, htoken⟩ := peek_of_read hpeek
  -- All ways out are one of two: no specifier is found, or one has joined.
  have hnone : ∀ {w : View}, (Pure.pure none : Script (Option SpecifierTally)).read
      (Parser.readAt depth) u = some (found, w) →
      (∀ next ∈ found, Joins tally next) ∧ (found = none → w = u ∧ (u.token? 0).isSome = true) := by
    intro w hread
    obtain ⟨rfl, rfl⟩ := pure_of_read hread
    exact ⟨nofun, fun _ => ⟨rfl, by rw [htoken]; rfl⟩⟩
  have hsome : ∀ {next : SpecifierTally} {x y : View}, Joins tally next →
      (Pure.pure (some next) : Script (Option SpecifierTally)).read (Parser.readAt depth) x =
        some (found, y) →
      (∀ next ∈ found, Joins tally next) ∧ (found = none → w = u ∧ (u.token? 0).isSome = true) := by
    intro next x y hjoins hread
    obtain ⟨rfl, -⟩ := pure_of_read hread
    exact ⟨by rintro _ ⟨⟩; exact hjoins, nofun⟩
  split at hnext
  · rename_i word hkind
    split at hnext
    · split at hnext
      · cases hnext
      · obtain ⟨_, _, -, hdone⟩ := bind_of_read hnext
        exact hsome (.modifier word) hdone
    · split at hnext
      · obtain ⟨_, _, -, hdone⟩ := bind_of_read hnext
        exact hsome (.modifier word) hdone
      · split at hnext
        · obtain ⟨next, _, hword, hdone⟩ := bind_of_read hnext
          exact hsome (joins_of_typeWord ⟨depth, hword⟩) hdone
        · split at hnext
          · obtain ⟨next, _, htagged, hdone⟩ := bind_of_read hnext
            exact hsome (joins_of_taggedType ⟨depth, htagged⟩) hdone
          · exact hnone hnext
  · rename_i name hkind
    split at hnext
    · exact hnone hnext
    · obtain ⟨_, _, -, hdone⟩ := bind_of_read hnext
      exact hsome (.type (.named name)) hdone
  · exact hnone hnext

namespace Joins

variable {next : SpecifierTally}

theorem hasStorageClass (h : Joins tally next) (hstorage : tally.hasStorageClass = true) :
    next.hasStorageClass = true := by
  cases h with
  | modifier word =>
      cases word <;> simp_all [SpecifierTally.hasStorageClass, SpecifierTally.addModifier]
  | word _ _ => exact hstorage
  | type _ => exact hstorage

end Joins

/-- What is gathered at the end stands at the end of all that is read, where a token comes next. -/
theorem of_specifierTail (h : (specifierTail tally).Takes v result w) :
    (tally.hasStorageClass = true → result.hasStorageClass = true) ∧ (w.token? 0).isSome = true := by
  obtain ⟨depth, hread⟩ := h
  induction depth using Nat.strongRecOn generalizing tally v with
  | ind depth ih =>
      obtain ⟨found, u, hfound, hrest⟩ := bind_of_read hread
      have hspecifier := joins_of_specifier ⟨depth, hfound⟩
      cases found with
      | none =>
          obtain ⟨rfl, rfl⟩ := pure_of_read hrest
          obtain ⟨rfl, htoken⟩ := hspecifier.2 rfl
          exact ⟨id, htoken⟩
      | some next =>
          have htail := rule_of_read hrest
          cases depth with
          | zero => cases htail
          | succ depth =>
              have hlater := ih depth (Nat.lt_succ_self depth) htail
              exact ⟨fun hstorage => hlater.1 ((hspecifier.1 next rfl).hasStorageClass hstorage),
                hlater.2⟩

theorem Gathers.hasStorageClass (h : Gathers tally v last) (hstorage : last.hasStorageClass = true)
    (htakes : (specifierTail tally).Takes v result w) : result.hasStorageClass = true := by
  induction h with
  | refl => exact (of_specifierTail htakes).1 hstorage
  | step hfirst _ ih =>
      obtain ⟨_, _, hspecifier, htail⟩ := htakes.exists_bind
      obtain ⟨rfl, rfl⟩ := hfirst.unique hspecifier
      exact ih hstorage htail.of_rule

/-- Where a storage class is gathered, no members are read. -/
theorem not_takes_memberDeclaration {members : List Member} (h : Gathers .empty v last)
    (hstorage : last.hasStorageClass = true) : ¬ memberDeclaration.Takes v members w := by
  intro htakes
  obtain ⟨specifiers, u, hspecifiers, depth, hread⟩ := htakes.exists_bind
  obtain ⟨position, x, ⟨_, hhere⟩, hbehind⟩ := hspecifiers.exists_bind
  obtain ⟨tally, y, htail, _, htype⟩ := hbehind.exists_bind
  obtain ⟨token, z, hpeek, hposition⟩ := bind_of_read hhere
  obtain ⟨rfl, -⟩ := peek_of_read hpeek
  obtain ⟨-, rfl⟩ := pure_of_read hposition
  have htally := h.hasStorageClass hstorage htail
  split at htype
  · obtain ⟨rfl, rfl⟩ := pure_of_read htype
    split at hread
    · cases hread
    · rename_i hnone
      exact hnone htally
  · obtain ⟨_, _, -, hrefuse⟩ := bind_of_read htype
    cases hrefuse

end Grammar

/-! ## Barred scripts -/

/-- The script comes to a member declaration, and among its specifiers to a storage class. -/
def Script.Barred {α : Type} (prog : Script α) (v : View) : Prop :=
  ∃ w last, Arrives Grammar.memberDeclaration w prog v ∧ Grammar.Gathers .empty w last ∧
    last.hasStorageClass = true

namespace Script.Barred

variable {α β : Type} {prog : Script α} {next : α → Script β} {v w : View}

theorem front (h : prog.Barred v) : (prog >>= next).Barred v := by
  obtain ⟨u, last, harrives, hgathers, hstorage⟩ := h
  exact ⟨u, last, .front harrives, hgathers, hstorage⟩

theorem rest {a : α} (htakes : prog.Takes v a w) (h : (next a).Barred w) :
    (prog >>= next).Barred v := by
  obtain ⟨u, last, harrives, hgathers, hstorage⟩ := h
  exact ⟨u, last, .rest htakes harrives, hgathers, hstorage⟩

theorem rule {f : Nonterminal} (h : (Grammar.script f).Barred v) : (Script.rule f).Barred v := by
  obtain ⟨u, last, harrives, hgathers, hstorage⟩ := h
  exact ⟨u, last, .call harrives, hgathers, hstorage⟩

/-- Nothing that could stand behind the lexemes makes up for the storage class. -/
theorem not_takes (h : prog.Barred v) (hend : v.ending.toOption = none) {after : List Piece}
    {ending : Except ParseError Position} {a : α} : ¬ prog.Takes (v.extend after ending) a w := by
  intro htakes
  obtain ⟨u, last, harrives, hgathers, hstorage⟩ := h
  obtain ⟨hend', harrives'⟩ := harrives.extend hend after ending
  obtain ⟨members, y, hmembers⟩ := harrives'.exists_takes htakes
  exact Grammar.not_takes_memberDeclaration (hgathers.extend hend' after ending) hstorage hmembers

end Script.Barred

/-! ## Members with a storage class -/

namespace Grammar

open Script

variable {fault : ParseError} {T : SymbolTable} {p : List Piece} {word : Keyword}
  {head brace piece : Piece}

/-- No member begins with a storage class. -/
theorem barred_memberDeclaration (hword : word.isStorageClass = true)
    (hpiece : T.classify piece.lexeme = .keyword word) :
    memberDeclaration.Barred (.alone T (piece :: p) fault) := by
  have hnext : (View.alone T [] fault).next piece = ⟨.keyword word, piece.position⟩ :=
    congrArg (Token.mk · piece.position) hpiece
  have htakes : (specifier .empty).Takes (.alone T (piece :: p) fault)
      (some (SpecifierTally.empty.addModifier word)) (.alone T p fault) := by
    refine (Takes.peek (v := .alone T [] fault)).bind ?_
    rw [hnext]
    simp only [hword, if_true]
    exact (Takes.advance (v := .alone T [] fault) rfl).bind Takes.pure
  refine ⟨_, _, .self, .step htakes .refl, ?_⟩
  cases word <;> first | rfl | cases hword

/-- No text begins with a record whose members do. -/
theorem barred_externalDeclarations (hhead : head.lexeme = .word Keyword.struct.spelling)
    (hbrace : brace.lexeme = .punctuator .openBrace) (hword : word.isStorageClass = true)
    (hpiece : piece.lexeme = .word word.spelling) :
    externalDeclarations.Barred (.alone .empty (head :: brace :: piece :: p) fault) := by
  have hfree := SymbolTable.keywordFree_empty
  have hstruct : (View.alone .empty [] fault).next head = ⟨.keyword .struct, head.position⟩ := by
    refine congrArg (Token.mk · head.position) ?_
    rw [View.kind, hhead]
    exact hfree.classify_keyword .struct
  have hmark : (View.alone .empty [] fault).kind brace = .punctuator .openBrace := by
    rw [View.kind, hbrace]
    rfl
  have hkeyword : (SymbolTable.empty.enter .record).classify piece.lexeme = .keyword word := by
    rw [hpiece]
    exact (hfree.enter .record).classify_keyword word
  -- From the members outwards: what bars a part bars the whole that goes on with it.
  have hmembers : members.Barred (.alone (SymbolTable.empty.enter .record) (piece :: p) fault) := by
    refine .rest (Takes.nextIs (v := .alone (SymbolTable.empty.enter .record) [] fault)) ?_
    rw [show (View.alone (SymbolTable.empty.enter .record) [] fault).kind piece = .keyword word from
      hkeyword]
    exact (barred_memberDeclaration hword hkeyword).front
  have hrecord : (record .struct).Barred (.alone .empty (brace :: piece :: p) fault) := by
    have htag : acceptWord.Takes (.alone .empty (brace :: piece :: p) fault) none
        (.alone .empty (brace :: piece :: p) fault) := by
      refine (Takes.peek (v := .alone .empty [] fault)).bind ?_
      rw [View.kind_next, hmark]
      exact Takes.pure
    exact .rest htag <| .rest (Takes.accept (v := .alone .empty [] fault) rfl hmark) <|
      .rest Takes.enter (Barred.rule (f := .members) hmembers).front
  have hpeek : Script.peek.Takes (.alone .empty (head :: brace :: piece :: p) fault) _ _ :=
    Takes.peek (v := .alone .empty [] fault)
  rw [hstruct] at hpeek
  have htype : recordType.Barred (.alone .empty (head :: brace :: piece :: p) fault) := by
    refine .rest (Takes.advance (v := .alone .empty [] fault) rfl) ?_
    rw [hstruct]
    exact hrecord
  have htagged : (taggedType .empty ⟨.keyword .struct, head.position⟩ .struct).Barred
      (.alone .empty (head :: brace :: piece :: p) fault) := htype.front
  have hspecifier : (specifier .empty).Barred
      (.alone .empty (head :: brace :: piece :: p) fault) := .rest hpeek htagged.front
  have htail : (specifierTail .empty).Barred
      (.alone .empty (head :: brace :: piece :: p) fault) := hspecifier.front
  have hspecifiers : specifiers.Barred (.alone .empty (head :: brace :: piece :: p) fault) :=
    .rest (Takes.here (v := .alone .empty [] fault)) htail.front
  have hdeclaration : externalDeclaration.Barred
      (.alone .empty (head :: brace :: piece :: p) fault) := hspecifiers.front
  exact .rest hpeek hdeclaration.front

end Grammar
end CSyntax
