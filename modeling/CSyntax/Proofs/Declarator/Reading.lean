import CSyntax.Proofs.Declarator.Notation
import CSyntax.Proofs.Expression.Completeness

/-!
# Reading — the parts of declarations, rule by rule

What the rules for specifiers, pointers, suffixes and the core of a declarator take off a view, one
construct at a time.  Each lemma names the lexemes that come next and asks of those behind them no
more than that they do not belong to the construct.
-/

namespace CSyntax

open Script Grammar

/-! ## Base types -/

/-- Whether the lexemes begin with one that goes on no specifiers. -/
def View.EndsSpecifiers (v : View) (pieces : List Piece) : Prop :=
  v.Begins (fun kind => (∀ word, kind ≠ .keyword word) ∧ kind ≠ .punctuator .openBrace) pieces

/-- What a base type is written with first.  No other base type begins with `void`. -/
theorem Based.first {kind : Piece → TokenKind} {base : CType} {front : List Piece}
    (h : Based kind base front) :
    ∃ first others, front = first :: others ∧ (kind first).startsTypeName = true ∧
      (kind first = .keyword .void → others = [] ∧ base = .named "void") := by
  cases h with
  | @arithmetic words pieces hwords hfront =>
      cases front with
      | nil =>
          have hnil : words = [] := by simpa using hfront.symm
          subst hnil
          exact absurd hwords (by decide)
      | cons first others =>
          cases words with
          | nil => cases hfront
          | cons word words =>
              obtain ⟨hfirst, hothers⟩ := List.cons.inj hfront
              have hword := ArithmeticType.isTypeWord_of_mem hwords List.mem_cons_self
              refine ⟨first, others, rfl, ?_, fun hvoid => ?_⟩
              · rw [hfirst]
                simp [TokenKind.startsTypeName, Keyword.startsTypeName, hword]
              · obtain rfl : word = .void := by simpa [hfirst] using hvoid
                -- Only one spelling has the word, so none can follow it.
                have halone : ∀ words ∈ ArithmeticType.canonicalWords,
                    words.head? = some .void → words = [.void] := by decide
                obtain rfl : words = [] := by simpa using halone _ hwords rfl
                exact ⟨by simpa using hothers, congrArg CType.named (by decide)⟩
  | declared hkind => exact ⟨_, _, rfl, by rw [hkind]; rfl, by simp [hkind]⟩
  | @record record _ _ _ hword =>
      refine ⟨_, _, rfl, ?_, ?_⟩
      · rw [hword]
        cases record <;> rfl
      · rw [hword]
        cases record <;> simp [RecordKind.word]
  | enumeration hword => exact ⟨_, _, rfl, by rw [hword]; rfl, by simp [hword]⟩

section

variable {v : View} {front after others : List Piece} {piece : Piece} {tally : SpecifierTally}

theorem takes_specifierTail_done (h : v.EndsSpecifiers after) (htype : tally.hasType = true) :
    (specifierTail tally).Takes (v.facing after) tally (v.facing after) := by
  obtain ⟨piece, others, rfl, hkeyword, -⟩ := h
  refine Takes.bind (a := none) (Takes.peek.bind ?_) Takes.pure
  rw [View.kind_next]
  split
  · rename_i word hkind
    exact absurd hkind (hkeyword word)
  · rw [if_pos htype]
    exact Takes.pure
  · exact Takes.pure

theorem takes_specifierTail {next result : SpecifierTally} {w u : View}
    (h : (specifier tally).Takes v (some next) w) (hrest : (specifierTail next).Takes w result u) :
    (specifierTail tally).Takes v result u :=
  h.bind (Takes.rule (f := .specifierTail next) hrest)

/-- A keyword of an arithmetic type goes to the words, which then name a type. -/
theorem takes_specifier_word {word : Keyword} (hv : v.taken = none)
    (hkind : v.kind piece = .keyword word) (hword : word.isTypeWord = true)
    (hother : tally.other = none)
    (hname : (ArithmeticType.canonical? (tally.words ++ [word])).isSome = true) :
    (specifier tally).Takes (v.facing (piece :: others))
      (some { tally with words := tally.words ++ [word] }) (v.facing others) := by
  -- No word of an arithmetic type is met by an earlier branch of the rule.
  have hclasses : word.isStorageClass = false ∧ word.isQualifier = false := by
    cases word <;> first | exact ⟨rfl, rfl⟩ | cases hword
  refine Takes.peek.bind ?_
  simp only [View.kind_next, hkind, hclasses.1, hclasses.2, hword, Bool.false_eq_true, if_false,
    if_true]
  refine Takes.bind ?_ Takes.pure
  rw [typeWord_eq hword, if_neg (by simp [hother])]
  refine (Takes.advance hv).bind ?_
  rw [if_pos hname]
  exact Takes.pure

theorem takes_specifierTail_words {words : List Keyword} (tally : SpecifierTally)
    (done : List Keyword) (hv : v.taken = none) (hafter : v.EndsSpecifiers after)
    (hfront : front.map v.kind = words.map .keyword)
    (hwords : ∀ word ∈ words, word.isTypeWord = true) (hother : tally.other = none)
    (htally : tally.words = done) (hne : done ++ words ≠ [])
    (hnames : ∀ first, first <+: done ++ words → first ≠ [] →
      (ArithmeticType.canonical? first).isSome = true) :
    (specifierTail tally).Takes (v.facing (front ++ after))
      { tally with words := done ++ words } (v.facing after) := by
  -- The words that are done grow by one in each step; those that are left are read from `tally`.
  induction words generalizing done front tally with
  | nil =>
      obtain rfl : front = [] := by simpa using hfront
      subst htally
      rw [List.append_nil] at hne ⊢
      exact takes_specifierTail_done hafter (by simpa [SpecifierTally.hasType, hother] using hne)
  | cons word words ih =>
      cases front with
      | nil => cases hfront
      | cons piece front =>
          obtain ⟨hkind, hfront⟩ := List.cons.inj hfront
          have hname := hnames (done ++ [word]) ⟨words, by simp⟩ (by simp)
          refine takes_specifierTail (takes_specifier_word hv hkind (hwords word List.mem_cons_self)
            hother (htally ▸ hname)) ?_
          -- The next word now counts as done.
          have hsplit : done ++ word :: words = (done ++ [word]) ++ words := by simp
          rw [hsplit] at hne hnames ⊢
          exact ih _ _ hfront (fun w hw => hwords w (List.mem_cons_of_mem _ hw)) hother
            (by rw [htally]) hne hnames

/-- The tag of a record or an enumeration, where no list follows. -/
theorem takes_record {record : RecordKind} {tag : String} (hv : v.taken = none)
    (hkind : v.kind piece = .identifier tag ∨ v.kind piece = .typeName tag)
    (hafter : v.EndsSpecifiers after) :
    (Grammar.record record).Takes (v.facing (piece :: after)) (.record record (some tag) none)
      (v.facing after) := by
  obtain ⟨second, others, rfl, -, hsecond⟩ := hafter
  exact (Takes.acceptWord hv hkind).bind ((Takes.accept_not hsecond).bind Takes.pure)

theorem takes_enumeration {tag : String} (hv : v.taken = none)
    (hkind : v.kind piece = .identifier tag ∨ v.kind piece = .typeName tag)
    (hafter : v.EndsSpecifiers after) :
    enumeration.Takes (v.facing (piece :: after)) (.enumeration (some tag) none)
      (v.facing after) := by
  obtain ⟨second, others, rfl, -, hsecond⟩ := hafter
  exact (Takes.acceptWord hv hkind).bind ((Takes.accept_not hsecond).bind Takes.pure)

theorem takes_recordType {record : RecordKind} {tag : String} {word : Piece}
    (hv : v.taken = none) (hword : v.kind word = .keyword record.word)
    (hkind : v.kind piece = .identifier tag ∨ v.kind piece = .typeName tag)
    (hafter : v.EndsSpecifiers after) :
    recordType.Takes (v.facing (word :: piece :: after)) (.record record (some tag) none)
      (v.facing after) := by
  refine (Takes.advance hv).bind ?_
  rw [View.kind_next, hword]
  cases record
  · exact takes_record hv hkind hafter
  · exact takes_record hv hkind hafter

theorem takes_specifier_record {record : RecordKind} {tag : String} {word : Piece}
    (hv : v.taken = none) (hword : v.kind word = .keyword record.word)
    (hkind : v.kind piece = .identifier tag ∨ v.kind piece = .typeName tag)
    (hafter : v.EndsSpecifiers after) :
    (specifier .empty).Takes (v.facing (word :: piece :: after))
      (some { SpecifierTally.empty with other := some (.record record (some tag) none) })
      (v.facing after) := by
  have htype := takes_recordType hv hword hkind hafter
  refine Takes.peek.bind ?_
  rw [View.kind_next, hword]
  cases record
  · exact Takes.bind (htype.bind Takes.pure) Takes.pure
  · exact Takes.bind (htype.bind Takes.pure) Takes.pure

theorem takes_specifier_enumeration {tag : String} {word : Piece}
    (hv : v.taken = none) (hword : v.kind word = .keyword .enum)
    (hkind : v.kind piece = .identifier tag ∨ v.kind piece = .typeName tag)
    (hafter : v.EndsSpecifiers after) :
    (specifier .empty).Takes (v.facing (word :: piece :: after))
      (some { SpecifierTally.empty with other := some (.enumeration (some tag) none) })
      (v.facing after) := by
  have htype : enumerationType.Takes (v.facing (word :: piece :: after))
      (.enumeration (some tag) none) (v.facing after) :=
    (Takes.expect hv hword).bind (takes_enumeration hv hkind hafter)
  refine Takes.peek.bind ?_
  rw [View.kind_next, hword]
  exact Takes.bind (htype.bind Takes.pure) Takes.pure

/-- The specifiers of a base type alone. -/
def Specifiers.plain (base : CType) (position : Position) : Specifiers :=
  { base := base
    storage := none
    isTypedef := false
    qualifiers := { const := false, volatile := false }
    position := position }

theorem takes_specifiers {tally : SpecifierTally} {base : CType} {others : List Piece} {w : View}
    (h : (specifierTail .empty).Takes (v.facing (piece :: others)) tally w)
    (hbase : tally.type? = some base) :
    specifiers.Takes (v.facing (piece :: others))
      { base := base
        storage := tally.storage
        isTypedef := tally.isTypedef
        qualifiers := tally.qualifiers
        position := piece.position } w := by
  refine Takes.here.bind (h.bind ?_)
  rw [hbase]
  exact Takes.pure

theorem Based.takes {base : CType} (h : Based v.kind base front) (hv : v.taken = none)
    (hafter : v.EndsSpecifiers after) :
    ∃ first others, front = first :: others ∧ specifiers.Takes (v.facing (front ++ after))
      (.plain base first.position) (v.facing after) := by
  obtain ⟨first, others, rfl, -, -⟩ := h.first
  refine ⟨first, others, rfl, ?_⟩
  cases h with
  | @arithmetic words _ hwords hfront =>
      have hne : words ≠ [] := by
        rintro rfl
        cases hfront
      -- The rule asks after each word whether the words so far name a type, so all fronts have to.
      have htail := takes_specifierTail_words .empty [] hv hafter hfront
        (fun _ => ArithmeticType.isTypeWord_of_mem hwords) rfl rfl hne
        (fun _ => ArithmeticType.canonical?_of_prefix hwords)
      refine takes_specifiers htail ?_
      simp [SpecifierTally.type?, SpecifierTally.empty, ArithmeticType.canonical?_of_mem hwords]
  | @declared name _ hkind =>
      have hspecifier : (specifier .empty).Takes (v.facing (first :: after))
          (some { SpecifierTally.empty with other := some (.named name) }) (v.facing after) := by
        refine Takes.peek.bind ?_
        rw [View.kind_next, hkind]
        exact (Takes.advance hv).bind Takes.pure
      exact takes_specifiers (takes_specifierTail hspecifier
        (takes_specifierTail_done hafter rfl)) rfl
  | record hword hkind =>
      exact takes_specifiers (takes_specifierTail
        (takes_specifier_record hv hword hkind hafter) (takes_specifierTail_done hafter rfl)) rfl
  | enumeration hword hkind =>
      exact takes_specifiers (takes_specifierTail
        (takes_specifier_enumeration hv hword hkind hafter)
        (takes_specifierTail_done hafter rfl)) rfl

end

/-! ## What surrounds a declarator -/

namespace TokenKind

/-- What a declarator that is not missing begins with, behind its pointers. -/
def opensCore : TokenKind → Bool
  | .identifier _ | .typeName _ => true
  | .punctuator .openParen | .punctuator .openBracket => true
  | _ => false

/-- What comes behind a declarator. -/
def endsDeclarator : TokenKind → Bool
  | .punctuator .closeParen | .punctuator .comma | .punctuator .semicolon => true
  | _ => false

/-- What comes behind the parenthesis that opens a parameter list. -/
def opensParameters : TokenKind → Bool
  | .keyword _ | .typeName _ => true
  | .punctuator .closeParen | .punctuator .ellipsis => true
  | _ => false

end TokenKind

theorem View.endsSpecifiers_of_opensCore {v : View} {piece : Piece} {others : List Piece}
    (h : (v.kind piece).opensCore = true ∨ v.kind piece = .punctuator .asterisk) :
    v.EndsSpecifiers (piece :: others) := by
  refine View.begins_cons.2 ⟨fun word heq => ?_, fun heq => ?_⟩
  · simp [heq, TokenKind.opensCore] at h
  · simp [heq, TokenKind.opensCore] at h

theorem View.endsSpecifiers_of_endsDeclarator {v : View} {pieces : List Piece}
    (h : v.Begins (fun kind => kind.endsDeclarator = true) pieces) : v.EndsSpecifiers pieces := by
  obtain ⟨piece, others, rfl, hpiece⟩ := h
  refine View.begins_cons.2 ⟨fun word heq => ?_, fun heq => ?_⟩
  · simp [heq, TokenKind.endsDeclarator] at hpiece
  · simp [heq, TokenKind.endsDeclarator] at hpiece

/-- Whether suffixes or the end of the declarator come next. -/
def View.Continues (v : View) (pieces : List Piece) : Prop :=
  ∃ piece others, pieces = piece :: others ∧ ((v.kind piece).endsDeclarator = true ∨
    v.kind piece = .punctuator .openBracket ∨
      v.kind piece = .punctuator .openParen ∧
        v.Begins (fun kind => kind.opensParameters = true) others)

section

variable {v w : View} {piece opening closing : Piece} {after others between : List Piece}
  {modifiers : List TypeModifier} {mode : DeclaratorMode}

/-! ### Pointers -/

theorem takes_pointerTail (hv : v.taken = none)
    (hafter : v.Begins (fun kind => kind.opensCore = true ∨ kind.endsDeclarator = true) after)
    {stars : List Piece} (hstars : ∀ star ∈ stars, v.kind star = .punctuator .asterisk) :
    pointerTail.Takes (v.facing (stars ++ after)) stars.length (v.facing after) := by
  induction stars with
  | nil =>
      -- Neither an asterisk nor a qualifier comes next.
      obtain ⟨piece, others, rfl, hpiece⟩ := hafter
      refine Takes.peek.bind ?_
      rw [View.kind_next]
      split
      · simp_all [TokenKind.opensCore, TokenKind.endsDeclarator]
      · simp_all [TokenKind.opensCore, TokenKind.endsDeclarator]
      · simp_all [TokenKind.opensCore, TokenKind.endsDeclarator]
      · exact Takes.pure
  | cons star stars ih =>
      refine Takes.peek.bind ?_
      rw [View.kind_next, hstars star List.mem_cons_self]
      exact (Takes.advance hv).bind ((Takes.rule (f := .pointerTail)
        (ih fun star hstar => hstars star (List.mem_cons_of_mem _ hstar))).bind Takes.pure)

theorem takes_pointers (hv : v.taken = none)
    (hafter : v.Begins (fun kind => kind.opensCore = true ∨ kind.endsDeclarator = true) after)
    {stars : List Piece} (hstars : ∀ star ∈ stars, v.kind star = .punctuator .asterisk) :
    pointers.Takes (v.facing (stars ++ after)) stars.length (v.facing after) := by
  cases stars with
  | nil =>
      obtain ⟨piece, others, rfl, hpiece⟩ := hafter
      refine (Takes.accept_not fun heq => ?_).bind Takes.pure
      rw [heq] at hpiece
      simp [TokenKind.opensCore, TokenKind.endsDeclarator] at hpiece
  | cons star stars =>
      have htail := takes_pointerTail hv hafter
        fun star hstar => hstars star (List.mem_cons_of_mem _ hstar)
      exact (Takes.accept hv (hstars star List.mem_cons_self)).bind
        ((Takes.rule (f := .pointerTail) htail).bind Takes.pure)

/-! ### Suffixes -/

theorem takes_suffixes_done (h : v.Begins (fun kind => kind.endsDeclarator = true) after) :
    suffixes.Takes (v.facing after) [] (v.facing after) := by
  obtain ⟨piece, others, rfl, hpiece⟩ := h
  have hne : ∀ mark : Punctuator, (TokenKind.punctuator mark).endsDeclarator = false →
      v.kind piece ≠ .punctuator mark := by
    intro mark hmark heq
    rw [heq, hmark] at hpiece
    cases hpiece
  exact (Takes.accept_not (hne .openBracket rfl)).bind
    ((Takes.accept_not (hne .openParen rfl)).bind Takes.pure)

theorem takes_suffixes_openArray (hv : v.taken = none)
    (hopening : v.kind opening = .punctuator .openBracket)
    (hclosing : v.kind closing = .punctuator .closeBracket)
    (h : suffixes.Takes (v.facing after) modifiers w) :
    suffixes.Takes (v.facing (opening :: closing :: after)) (.array none :: modifiers) w :=
  (Takes.accept hv hopening).bind ((Takes.accept hv hclosing).bind
    ((Takes.rule (f := .suffixes) h).bind Takes.pure))

theorem takes_suffixes_array {value : UInt64} (hv : v.taken = none)
    (hfree : v.table.KeywordFree) (hopening : v.kind opening = .punctuator .openBracket)
    (hsize : v.kind piece = .integer value)
    (hclosing : v.kind closing = .punctuator .closeBracket)
    (h : suffixes.Takes (v.facing after) modifiers w) :
    suffixes.Takes (v.facing (opening :: piece :: closing :: after))
      (.array (some (.integer piece.position value)) :: modifiers) w := by
  -- The size is an expression like any other, so the grammar of expressions says how it is read.
  have hderives : Derives TokenKind.startsTypeName v (.level .unary) (piece :: closing :: after)
      (.integer piece.position value) (closing :: after) :=
    .operand (.postfixed (.primary (.integer hsize)))
  have hvalue : (expression .conditional).Takes (v.facing (piece :: closing :: after))
      (.integer piece.position value) (v.facing (closing :: after)) :=
    (hderives.loosen (Nat.zero_le _)).takes hv hfree (View.begins_cons.2 (by rw [hclosing]; rfl))
  exact (Takes.accept hv hopening).bind ((Takes.accept_not (by simp [hsize])).bind
    ((Takes.rule (f := .expression .conditional) hvalue).bind ((Takes.expect hv hclosing).bind
      ((Takes.rule (f := .suffixes) h).bind Takes.pure))))

theorem takes_suffixes_function {parameters : List Parameter} {variadic : Bool}
    (hv : v.taken = none) (hopening : v.kind opening = .punctuator .openParen)
    (hlist : parameterList.Takes (v.facing between) (parameters, variadic) (v.facing after))
    (h : suffixes.Takes (v.facing after) modifiers w) :
    suffixes.Takes (v.facing (opening :: between)) (.function parameters variadic :: modifiers)
      w :=
  (Takes.accept_not (by simp [hopening])).bind ((Takes.accept hv hopening).bind
    (hlist.bind ((Takes.rule (f := .suffixes) h).bind Takes.pure)))

/-! ### Cores -/

theorem takes_declaratorCore_name {name : String} (hv : v.taken = none)
    (hkind : v.kind piece = .identifier name ∨ v.kind piece = .typeName name) :
    (declaratorCore .named).Takes (v.facing (piece :: others))
      { name := some (name, piece.position), modifiers := [] } (v.facing others) := by
  refine Takes.peek.bind ?_
  rcases hkind with hkind | hkind
  · rw [View.kind_next, hkind]
    exact (Takes.advance hv).bind Takes.pure
  · rw [View.kind_next, hkind]
    exact (Takes.advance hv).bind Takes.pure

theorem takes_declaratorCore_nameless (hmode : mode ≠ .named) (h : v.Continues after) :
    (declaratorCore mode).Takes (v.facing after) { name := none, modifiers := [] }
      (v.facing after) := by
  obtain ⟨piece, others, rfl, hpiece | hpiece | ⟨hpiece, hothers⟩⟩ := h
  -- The declarator ends, or a bracket follows: neither is a name or a parenthesis.
  · refine Takes.peek.bind ?_
    rw [View.kind_next]
    split
    · simp_all [TokenKind.endsDeclarator]
    · simp_all [TokenKind.endsDeclarator]
    · simp_all [TokenKind.endsDeclarator]
    · rw [if_neg hmode]
      exact Takes.pure
  · refine Takes.peek.bind ?_
    rw [View.kind_next, hpiece]
    simp only [if_neg hmode]
    exact Takes.pure
  -- The token behind the parenthesis tells that a parameter list is opened, no declarator.
  · obtain ⟨second, more, rfl, hsecond⟩ := hothers
    refine Takes.peek.bind ?_
    rw [View.kind_next, hpiece]
    refine Takes.bind (a := false) ?_ Takes.pure
    unfold opensDeclarator
    split
    · exact absurd rfl hmode
    · refine Takes.peekNth_one.bind ?_
      rw [View.kind_next]
      split
      · simp_all [TokenKind.opensParameters]
      · simp_all [TokenKind.opensParameters]
      · simp_all [TokenKind.opensParameters]
      · simp_all [TokenKind.opensParameters]
      · exact Takes.pure

/-- A parenthesis opens another declarator if that has a name or begins with a pointer. -/
theorem takes_declaratorCore_parentheses {inner : Declarator} (hv : v.taken = none)
    (hopening : v.kind opening = .punctuator .openParen)
    (hmode : mode = .named ∨ v.Begins (fun kind => kind = .punctuator .asterisk) between)
    (hinner : (declarator mode).Takes (v.facing between) inner (v.facing (closing :: after)))
    (hclosing : v.kind closing = .punctuator .closeParen) :
    (declaratorCore mode).Takes (v.facing (opening :: between)) inner (v.facing after) := by
  refine Takes.peek.bind ?_
  rw [View.kind_next, hopening]
  refine Takes.bind (a := true) (w := v.facing (opening :: between)) ?_
    ((Takes.advance hv).bind ((Takes.rule (f := .declarator mode) hinner).bind
      ((Takes.expect hv hclosing).bind Takes.pure)))
  unfold opensDeclarator
  split
  · exact Takes.pure
  · rcases hmode with hmode | ⟨second, more, rfl, hsecond⟩
    · contradiction
    · refine Takes.peekNth_one.bind ?_
      rw [View.kind_next, hsecond]
      exact Takes.pure

end

end CSyntax
