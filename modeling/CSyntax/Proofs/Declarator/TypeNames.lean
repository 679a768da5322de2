import CSyntax.Proofs.Expression.Exactness

/-!
# Type names — what stands in a cast or behind `sizeof`

A type name is read by the rules for the specifiers of a declaration and for declarators.  This file
says of every type name that is read which lexemes it was read from: specifiers, one of which names a
type, and a declarator without a name.  The rule for specifiers takes storage classes as well, and
nothing looks for them afterwards, so one may stand among the specifiers of a type name; in
parentheses it is not the first, since the parenthesis is then taken to open an expression.

* `View.Specifier`, `View.SpecifierList` — specifiers, with the class of each;
* `View.Abstract` — declarators without a name;
* `Parser.typeName_read` — what a type name is read from, by itself and in parentheses;
* `Parser.typeName_takes_storageClass` — a program in which a storage class stands in a type name.
-/

namespace CSyntax

open Script Grammar

variable {v w : View} {depth : Nat} {b : List Piece}

/-! ## The grammar of type names -/

/-- The classes of specifiers. -/
inductive SpecifierClass
  | type
  | qualifier
  /-- Storage classes and `typedef`. -/
  | storage
  deriving DecidableEq

namespace View

/-- A word that may be a tag. -/
def Word (v : View) (piece : Piece) : Prop :=
  ∃ name, v.kind piece = .identifier name ∨ v.kind piece = .typeName name

/-- One specifier lies ahead of the first view and is taken before the second.  The members of a
record and the enumerators of an enumeration are what their rules take. -/
inductive Specifier : SpecifierClass → View → View → Prop
  | storage {v : View} {piece : Piece} {others : List Piece} {word : Keyword} :
      v.kind piece = .keyword word → word.isStorageClass = true →
      Specifier .storage (v.facing (piece :: others)) (v.facing others)
  | qualifier {v : View} {piece : Piece} {others : List Piece} {word : Keyword} :
      v.kind piece = .keyword word → word.isQualifier = true →
      Specifier .qualifier (v.facing (piece :: others)) (v.facing others)
  | word {v : View} {piece : Piece} {others : List Piece} {word : Keyword} :
      v.kind piece = .keyword word → word.isTypeWord = true →
      Specifier .type (v.facing (piece :: others)) (v.facing others)
  | name {v : View} {piece : Piece} {others : List Piece} {name : String} :
      v.kind piece = .typeName name → Specifier .type (v.facing (piece :: others)) (v.facing others)
  | tag {v : View} {piece tag : Piece} {others : List Piece} {word : Keyword} :
      v.kind piece = .keyword word → word.isTagged = true → v.Word tag →
      Specifier .type (v.facing (piece :: tag :: others)) (v.facing others)
  | record {v w : View} {piece opening closing : Piece} {tag mid after : List Piece}
      {word : Keyword} {members : List Member} {T : SymbolTable} :
      v.kind piece = .keyword word → word = .struct ∨ word = .union →
      tag.length ≤ 1 → (∀ word ∈ tag, v.Word word) → v.kind opening = .punctuator .openBrace →
      (Grammar.script .members).Takes ({ v with table := v.table.enter .record }.facing mid) members
        w →
      w.ahead = closing :: after → w.kind closing = .punctuator .closeBrace →
      w.table.leave? = some T →
      Specifier .type (v.facing (piece :: (tag ++ opening :: mid)))
        { w with ahead := after, table := T }
  | enumeration {v w : View} {piece opening closing : Piece} {tag mid after : List Piece}
      {enumerators : List Enumerator} :
      v.kind piece = .keyword .enum → tag.length ≤ 1 → (∀ word ∈ tag, v.Word word) →
      v.kind opening = .punctuator .openBrace →
      (Grammar.script .enumerators).Takes (v.facing mid) enumerators w →
      w.ahead = closing :: after → w.kind closing = .punctuator .closeBrace →
      Specifier .type (v.facing (piece :: (tag ++ opening :: mid))) (w.facing after)

theorem Specifier.exists_storageClass (h : Specifier .storage v w) : ∃ piece others word,
    v.ahead = piece :: others ∧ v.kind piece = .keyword word ∧ word.isStorageClass = true := by
  cases h with
  | storage hkind hword => exact ⟨_, _, _, rfl, hkind, hword⟩

/-- Specifiers in a row. -/
inductive SpecifierList : List SpecifierClass → View → View → Prop
  | nil (v : View) : SpecifierList [] v v
  | cons {first : SpecifierClass} {others : List SpecifierClass} {v u w : View} :
      Specifier first v u → SpecifierList others u w → SpecifierList (first :: others) v w

/-- Asterisks with qualifiers behind them, or nothing. -/
def Pointers (v w : View) : Prop :=
  ∃ front after, v.ahead = front ++ after ∧ w = v.facing after ∧
    (∀ piece ∈ front, v.kind piece = .punctuator .asterisk ∨ v.kind piece = .keyword .const ∨
      v.kind piece = .keyword .volatile) ∧
    ∀ piece ∈ front.head?, v.kind piece = .punctuator .asterisk

/-- The brackets and parameter lists of a declarator. -/
inductive Suffixes : View → View → Prop
  | nil (v : View) : Suffixes v v
  | unsized {v w : View} {opening closing : Piece} {others : List Piece} :
      v.kind opening = .punctuator .openBracket → v.kind closing = .punctuator .closeBracket →
      Suffixes (v.facing others) w → Suffixes (v.facing (opening :: closing :: others)) w
  | sized {v u w : View} {opening closing : Piece} {mid others : List Piece} {size : Expr} :
      v.kind opening = .punctuator .openBracket →
      (Grammar.script (.expression .conditional)).Takes (v.facing mid) size u →
      u.ahead = closing :: others → u.kind closing = .punctuator .closeBracket →
      Suffixes (u.facing others) w → Suffixes (v.facing (opening :: mid)) w
  | parameters {v u w : View} {opening : Piece} {mid : List Piece} {list : List Parameter × Bool} :
      v.kind opening = .punctuator .openParen → parameterList.Takes (v.facing mid) list u →
      Suffixes u w → Suffixes (v.facing (opening :: mid)) w

/-- A declarator that names nothing, which may be no lexeme at all.  One in parentheses is none of
these, since its first lexeme is fixed. -/
inductive Abstract : View → View → Prop
  | plain {v u w : View} : Pointers v u → Suffixes u w → Abstract v w
  | nested {v x y w : View} {opening first closing : Piece} {others after : List Piece} :
      Pointers v (x.facing (opening :: first :: others)) → x.kind opening = .punctuator .openParen →
      (∃ mark, x.kind first = .punctuator mark ∧
        (mark = .asterisk ∨ mark = .openParen ∨ mark = .openBracket)) →
      Abstract (x.facing (first :: others)) y → y.ahead = closing :: after →
      y.kind closing = .punctuator .closeParen → Suffixes (y.facing after) w → Abstract v w

/-- What a type name is read from: specifiers of the classes, one of which names a type and one of
which at most is a storage class, and a declarator without a name. -/
def TypeName (classes : List SpecifierClass) (v w : View) : Prop :=
  .type ∈ classes ∧ classes.count .storage ≤ 1 ∧ ∃ u, v.SpecifierList classes u ∧ u.Abstract w

end View

/-! ## Specifiers are read -/

/-- How a specifier of the class changes a tally. -/
structure SpecifierTally.Counts (tally : SpecifierTally) (c : SpecifierClass)
    (next : SpecifierTally) : Prop where
  once : c = .storage → tally.hasStorageClass = false ∧ next.hasStorageClass = true
  other : c ≠ .storage → next.hasStorageClass = tally.hasStorageClass
  named : next.hasType = true → tally.hasType = true ∨ c = .type

namespace SpecifierTally.Counts

variable {tally next result : SpecifierTally} {word : Keyword}

theorem storage (hword : word.isStorageClass = true) (h : tally.hasStorageClass = false) :
    tally.Counts .storage (tally.addModifier word) where
  once _ := by
    refine ⟨h, ?_⟩
    cases word <;> simp_all [addModifier, hasStorageClass, Keyword.isStorageClass]
  other hc := absurd rfl hc
  named hresult := Or.inl (by cases word <;> exact hresult)

theorem qualifier (hword : word.isQualifier = true) :
    tally.Counts .qualifier (tally.addModifier word) where
  once := nofun
  other _ := by cases word <;> first | rfl | cases hword
  named hresult := Or.inl (by cases word <;> exact hresult)

theorem type (h : next.hasStorageClass = tally.hasStorageClass) : tally.Counts .type next where
  once := nofun
  other _ := h
  named _ := Or.inr rfl

end SpecifierTally.Counts

/-- How specifiers of the classes change a tally. -/
structure SpecifierTally.CountsAll (tally : SpecifierTally) (classes : List SpecifierClass)
    (result : SpecifierTally) : Prop where
  once : classes.count .storage + (if tally.hasStorageClass then 1 else 0) ≤ 1
  named : result.hasType = true → tally.hasType = true ∨ .type ∈ classes

namespace SpecifierTally.CountsAll

variable {tally next result : SpecifierTally} {c : SpecifierClass} {classes : List SpecifierClass}

theorem nil (tally : SpecifierTally) : tally.CountsAll [] tally where
  once := by split <;> simp
  named := Or.inl

theorem cons (h : tally.Counts c next) (h' : next.CountsAll classes result) :
    tally.CountsAll (c :: classes) result where
  once := by
    have hlater := h'.once
    by_cases hc : c = .storage
    · obtain ⟨hbefore, hafter⟩ := h.once hc
      simp only [hafter, if_true] at hlater
      simp only [hc, List.count_cons_self, hbefore]
      simpa using hlater
    · rw [h.other hc] at hlater
      rwa [List.count_cons_of_ne hc]
  named hresult := by
    rcases h'.named hresult with hnext | hmem
    · exact (h.named hnext).imp_right fun hc => by simp [hc]
    · exact Or.inr (List.mem_cons_of_mem _ hmem)

end SpecifierTally.CountsAll

namespace Grammar

/-- A tag is one lexeme, or none. -/
theorem tag_of_read {tag : Option String} (hv : v.Regular)
    (h : acceptWord.read (Parser.readAt depth) (v.facing b) = some (tag, w)) :
    ∃ front after, b = front ++ after ∧ w = v.facing after ∧ front.length ≤ 1 ∧
      (∀ word ∈ front, v.Word word) ∧ (tag.isSome = true → ∃ word, front = [word]) := by
  rcases acceptWord_of_read hv.unmarked h with ⟨name, piece, others, rfl, rfl, hkind, rfl⟩ | ⟨rfl, rfl⟩
  · refine ⟨[piece], others, rfl, rfl, Nat.le_refl 1, fun word hword => ?_, fun _ => ⟨piece, rfl⟩⟩
    obtain rfl := List.mem_singleton.1 hword
    exact ⟨name, hkind⟩
  · exact ⟨[], b, rfl, rfl, Nat.zero_le 1, nofun, nofun⟩

/-- Where no list follows, a tag has been read. -/
theorem requireTag_of_read {tag : Option String} {reader : Reader}
    (h : (requireTag tag).read reader v = some ((), w)) : tag.isSome = true ∧ w = v := by
  unfold requireTag at h
  split at h
  · exact ⟨rfl, (pure_of_read h).2.symm⟩
  · obtain ⟨token, u, -, h⟩ := bind_of_read h
    cases h

theorem record_of_read {kind : RecordKind} {type : CType} (hv : v.Regular)
    (h : (record kind).read (Parser.readAt depth) (v.facing b) = some (type, w))
    {piece : Piece} {word : Keyword} (hpiece : v.kind piece = .keyword word)
    (hword : word = .struct ∨ word = .union) : View.Specifier .type (v.facing (piece :: b)) w := by
  obtain ⟨tag, u, htag, h⟩ := bind_of_read h
  obtain ⟨front, after, rfl, rfl, hlength, hfront, hsome⟩ := tag_of_read hv htag
  obtain ⟨opened, u, hopened, h⟩ := bind_of_read h
  rcases acceptMark_of_read hv.unmarked hopened with
    ⟨rfl, opening, mid, rfl, hopening, rfl⟩ | ⟨rfl, rfl⟩
  · obtain ⟨⟨⟩, u, henter, h⟩ := bind_of_read h
    obtain rfl := enter_of_read henter
    obtain ⟨members, x, hmembers, h⟩ := bind_of_read h
    have htakes := takes_of_readAt (rule_of_read hmembers)
    have hx : x.Regular := View.Regular.rule
      (v := { v with ahead := mid, table := v.table.enter .record })
      ⟨hv.unmarked, hv.keywordFree.enter .record⟩ htakes
    obtain ⟨close, y, hclose, h⟩ := bind_of_read h
    obtain ⟨closing, rest, hahead, hclosing, rfl⟩ :=
      expectMark_ahead_of_read hx.unmarked hclose
    obtain ⟨⟨⟩, z, hleave, h⟩ := bind_of_read h
    obtain ⟨T, hT, rfl⟩ := leave_of_read hleave
    obtain ⟨rfl, rfl⟩ := pure_of_read h
    exact View.Specifier.record (w := x) hpiece hword hlength hfront hopening htakes hahead
      hclosing hT
  · obtain ⟨⟨⟩, u, hrequire, h⟩ := bind_of_read h
    obtain ⟨htag, rfl⟩ := requireTag_of_read hrequire
    obtain ⟨rfl, rfl⟩ := pure_of_read h
    obtain ⟨tagPiece, rfl⟩ := hsome htag
    refine .tag hpiece ?_ (hfront tagPiece List.mem_cons_self)
    rcases hword with rfl | rfl <;> rfl

theorem enumeration_of_read {type : CType} (hv : v.Regular)
    (h : enumeration.read (Parser.readAt depth) (v.facing b) = some (type, w)) {piece : Piece}
    (hpiece : v.kind piece = .keyword .enum) : View.Specifier .type (v.facing (piece :: b)) w := by
  obtain ⟨tag, u, htag, h⟩ := bind_of_read h
  obtain ⟨front, after, rfl, rfl, hlength, hfront, hsome⟩ := tag_of_read hv htag
  obtain ⟨opened, u, hopened, h⟩ := bind_of_read h
  rcases acceptMark_of_read hv.unmarked hopened with
    ⟨rfl, opening, mid, rfl, hopening, rfl⟩ | ⟨rfl, rfl⟩
  · obtain ⟨list, x, hlist, h⟩ := bind_of_read h
    have htakes := takes_of_readAt (rule_of_read hlist)
    have hx : x.Regular := View.Regular.rule (v := v.facing mid) ⟨hv.unmarked, hv.keywordFree⟩ htakes
    obtain ⟨close, y, hclose, h⟩ := bind_of_read h
    obtain ⟨closing, rest, hahead, hclosing, rfl⟩ :=
      expectMark_ahead_of_read hx.unmarked hclose
    obtain ⟨rfl, rfl⟩ := pure_of_read h
    exact .enumeration hpiece hlength hfront hopening htakes hahead hclosing
  · obtain ⟨⟨⟩, u, hrequire, h⟩ := bind_of_read h
    obtain ⟨htag, rfl⟩ := requireTag_of_read hrequire
    obtain ⟨rfl, rfl⟩ := pure_of_read h
    obtain ⟨tagPiece, rfl⟩ := hsome htag
    exact .tag hpiece rfl (hfront tagPiece List.mem_cons_self)

/-- A record from its keyword on. -/
theorem recordType_of_read {type : CType} {piece : Piece} (hv : v.Regular)
    (h : recordType.read (Parser.readAt depth) (v.facing (piece :: b)) = some (type, w)) :
    View.Specifier .type (v.facing (piece :: b)) w := by
  obtain ⟨token, u, hadvance, h⟩ := bind_of_read h
  obtain ⟨rfl, rfl⟩ := advance_cons_of_read hv.unmarked hadvance
  split at h
  · rename_i hkind
    exact record_of_read hv h hkind (.inl rfl)
  · rename_i hkind
    exact record_of_read hv h hkind (.inr rfl)
  · cases h

/-- An enumeration from its keyword on. -/
theorem enumerationType_of_read {type : CType} {piece : Piece} (hv : v.Regular)
    (h : enumerationType.read (Parser.readAt depth) (v.facing (piece :: b)) = some (type, w)) :
    View.Specifier .type (v.facing (piece :: b)) w := by
  obtain ⟨_, u, hexpect, h⟩ := bind_of_read h
  obtain ⟨token, _, hpeek, hexpect⟩ := bind_of_read hexpect
  obtain ⟨rfl, htoken⟩ := peek_of_read hpeek
  cases htoken
  split at hexpect
  · rename_i hkind
    obtain ⟨-, rfl⟩ := advance_cons_of_read hv.unmarked hexpect
    exact enumeration_of_read hv h hkind
  · cases hexpect

theorem taggedType_of_read {tally next : SpecifierTally} {token : Token} {word : Keyword}
    {piece : Piece} (hv : v.Regular)
    (h : (taggedType tally token word).read (Parser.readAt depth) (v.facing (piece :: b)) =
      some (next, w)) :
    View.Specifier .type (v.facing (piece :: b)) w ∧ tally.Counts .type next := by
  unfold taggedType at h
  split at h
  · cases h
  · split at h
    · obtain ⟨type, x, htype, h⟩ := bind_of_read h
      obtain ⟨rfl, rfl⟩ := pure_of_read h
      exact ⟨enumerationType_of_read hv htype, .type rfl⟩
    · obtain ⟨type, x, htype, h⟩ := bind_of_read h
      obtain ⟨rfl, rfl⟩ := pure_of_read h
      exact ⟨recordType_of_read hv htype, .type rfl⟩

theorem specifier_of_read {tally : SpecifierTally} {result : Option SpecifierTally}
    (hv : v.Regular)
    (h : (specifier tally).read (Parser.readAt depth) (v.facing b) = some (result, w)) :
    (result = none ∧ w = v.facing b) ∨ ∃ c next, result = some next ∧
      View.Specifier c (v.facing b) w ∧ tally.Counts c next := by
  obtain ⟨token, u, hpeek, h⟩ := bind_of_read h
  obtain ⟨rfl, htoken⟩ := peek_of_read hpeek
  split at h
  case h_1 word hkind =>
    obtain ⟨piece, others, rfl, rfl⟩ := View.lexeme_of_token? htoken (by simp [hkind])
    split at h
    · rename_i hstorage
      split at h
      · cases h
      · rename_i hnone
        obtain ⟨_, _, hadvance, h⟩ := bind_of_read h
        obtain ⟨-, rfl⟩ := advance_cons_of_read hv.unmarked hadvance
        obtain ⟨rfl, rfl⟩ := pure_of_read h
        exact Or.inr ⟨.storage, _, rfl, .storage hkind hstorage,
          .storage hstorage (by simpa using hnone)⟩
    · split at h
      · rename_i hqualifier
        obtain ⟨_, _, hadvance, h⟩ := bind_of_read h
        obtain ⟨-, rfl⟩ := advance_cons_of_read hv.unmarked hadvance
        obtain ⟨rfl, rfl⟩ := pure_of_read h
        exact Or.inr ⟨.qualifier, _, rfl, .qualifier hkind hqualifier, .qualifier hqualifier⟩
      · split at h
        · rename_i hword
          obtain ⟨next, _, htype, h⟩ := bind_of_read h
          obtain ⟨rfl, rfl⟩ := pure_of_read h
          rw [typeWord_eq hword] at htype
          split at htype
          · cases htype
          · obtain ⟨_, _, hadvance, htype⟩ := bind_of_read htype
            obtain ⟨-, rfl⟩ := advance_cons_of_read hv.unmarked hadvance
            dsimp only at htype
            split at htype
            · obtain ⟨rfl, rfl⟩ := pure_of_read htype
              exact Or.inr ⟨.type, _, rfl, .word hkind hword, .type rfl⟩
            · cases htype
        · split at h
          · obtain ⟨next, _, htype, h⟩ := bind_of_read h
            obtain ⟨rfl, rfl⟩ := pure_of_read h
            obtain ⟨hspecifier, hcounts⟩ := taggedType_of_read hv htype
            exact Or.inr ⟨.type, next, rfl, hspecifier, hcounts⟩
          · obtain ⟨rfl, rfl⟩ := pure_of_read h
            exact Or.inl ⟨rfl, rfl⟩
  case h_2 name hkind =>
    split at h
    · obtain ⟨rfl, rfl⟩ := pure_of_read h
      exact Or.inl ⟨rfl, rfl⟩
    · obtain ⟨piece, others, rfl, rfl, h⟩ :=
        advance_bind_of_read hv.unmarked htoken (by simp [hkind]) h
      obtain ⟨rfl, rfl⟩ := pure_of_read h
      exact Or.inr ⟨.type, _, rfl, .name hkind, .type rfl⟩
  case h_3 =>
    obtain ⟨rfl, rfl⟩ := pure_of_read h
    exact Or.inl ⟨rfl, rfl⟩

theorem specifierTail_of_readAt {tally result : SpecifierTally} (hv : v.Regular)
    (h : Parser.readAt depth (.specifierTail tally) v = some (result, w)) :
    ∃ classes, v.SpecifierList classes w ∧ tally.CountsAll classes result := by
  induction depth generalizing tally v with
  | zero => cases h
  | succ depth ih =>
      obtain ⟨next?, u, hspecifier, h⟩ := bind_of_read h
      have hu : u.Regular := hv.orderly (orderly_specifier tally) ⟨depth, hspecifier⟩
      rcases specifier_of_read (b := v.ahead) hv hspecifier with
        ⟨rfl, rfl⟩ | ⟨c, next, rfl, hfirst, hcounts⟩
      · obtain ⟨rfl, rfl⟩ := pure_of_read h
        exact ⟨[], .nil v, .nil tally⟩
      · obtain ⟨classes, hothers, hall⟩ := ih hu (rule_of_read h)
        exact ⟨c :: classes, .cons hfirst hothers, .cons hcounts hall⟩

theorem specifiers_of_read {found : CSyntax.Specifiers} (hv : v.Regular)
    (h : specifiers.read (Parser.readAt depth) v = some (found, w)) :
    ∃ classes, v.SpecifierList classes w ∧ .type ∈ classes ∧ classes.count .storage ≤ 1 := by
  obtain ⟨position, u, hhere, h⟩ := bind_of_read h
  obtain ⟨token, _, hpeek, hdone⟩ := bind_of_read hhere
  obtain ⟨rfl, -⟩ := peek_of_read hpeek
  obtain ⟨rfl, rfl⟩ := pure_of_read hdone
  obtain ⟨tally, u, htail, h⟩ := bind_of_read h
  have hrule : Parser.readAt (depth + 1) (.specifierTail .empty) _ = some (tally, u) := htail
  obtain ⟨classes, hclasses, hcounts⟩ := specifierTail_of_readAt hv hrule
  split at h
  · rename_i base htype
    obtain ⟨rfl, rfl⟩ := pure_of_read h
    -- Specifiers without a type would have been refused.
    have hnamed : tally.hasType = true := by
      unfold SpecifierTally.type? at htype
      split at htype
      · simp [SpecifierTally.hasType, *]
      · obtain ⟨name, hname, -⟩ := Option.map_eq_some_iff.1 htype
        have hwords : tally.words ≠ [] := by
          intro hnil
          rw [hnil] at hname
          cases hname
        simp [SpecifierTally.hasType, hwords]
    exact ⟨classes, hclasses, (hcounts.named hnamed).resolve_left (by decide), hcounts.once⟩
  · obtain ⟨token, _, -, h⟩ := bind_of_read h
    cases h

/-! ## Declarators without names are read -/

theorem pointerTail_of_readAt {count : Nat} (hv : v.taken = none)
    (h : Parser.readAt depth .pointerTail (v.facing b) = some (count, w)) :
    ∃ front after, b = front ++ after ∧ w = v.facing after ∧ ∀ piece ∈ front,
      v.kind piece = .punctuator .asterisk ∨ v.kind piece = .keyword .const ∨
        v.kind piece = .keyword .volatile := by
  induction depth generalizing b count with
  | zero => cases h
  | succ depth ih =>
      obtain ⟨token, u, hpeek, h⟩ := bind_of_read h
      obtain ⟨rfl, htoken⟩ := peek_of_read hpeek
      split at h
      case h_1 hkind =>
        obtain ⟨piece, others, rfl, rfl, h⟩ := advance_bind_of_read hv htoken (by simp [hkind]) h
        obtain ⟨count, x, hrule, h⟩ := bind_of_read h
        obtain ⟨rfl, rfl⟩ := pure_of_read h
        obtain ⟨front, after, rfl, rfl, hfront⟩ := ih (rule_of_read hrule)
        exact ⟨piece :: front, after, rfl, rfl, List.forall_mem_cons.2 ⟨Or.inl hkind, hfront⟩⟩
      case h_2 hkind =>
        obtain ⟨piece, others, rfl, rfl, h⟩ := advance_bind_of_read hv htoken (by simp [hkind]) h
        obtain ⟨front, after, rfl, rfl, hfront⟩ := ih (rule_of_read h)
        exact ⟨piece :: front, after, rfl, rfl,
          List.forall_mem_cons.2 ⟨Or.inr (Or.inl hkind), hfront⟩⟩
      case h_3 hkind =>
        obtain ⟨piece, others, rfl, rfl, h⟩ := advance_bind_of_read hv htoken (by simp [hkind]) h
        obtain ⟨front, after, rfl, rfl, hfront⟩ := ih (rule_of_read h)
        exact ⟨piece :: front, after, rfl, rfl,
          List.forall_mem_cons.2 ⟨Or.inr (Or.inr hkind), hfront⟩⟩
      case h_4 =>
        obtain ⟨rfl, rfl⟩ := pure_of_read h
        exact ⟨[], b, rfl, rfl, nofun⟩

theorem pointers_of_read {count : Nat} (hv : v.taken = none)
    (h : pointers.read (Parser.readAt depth) v = some (count, w)) : v.Pointers w := by
  obtain ⟨found, u, haccept, h⟩ := bind_of_read h
  rcases acceptMark_ahead_of_read hv haccept with
    ⟨rfl, piece, others, hahead, hkind, rfl⟩ | ⟨rfl, rfl⟩
  · obtain ⟨count, x, hrule, h⟩ := bind_of_read h
    obtain ⟨rfl, rfl⟩ := pure_of_read h
    obtain ⟨front, after, rfl, rfl, hfront⟩ := pointerTail_of_readAt hv (rule_of_read hrule)
    refine ⟨piece :: front, after, hahead, rfl, List.forall_mem_cons.2 ⟨Or.inl hkind, hfront⟩, ?_⟩
    simpa using hkind
  · obtain ⟨rfl, rfl⟩ := pure_of_read h
    exact ⟨[], v.ahead, rfl, rfl, nofun, nofun⟩

theorem suffixes_of_readAt {modifiers : List TypeModifier} (hv : v.Regular)
    (h : Parser.readAt depth .suffixes v = some (modifiers, w)) : v.Suffixes w := by
  induction depth generalizing v modifiers with
  | zero => cases h
  | succ depth ih =>
      obtain ⟨bracket, u, haccept, h⟩ := bind_of_read h
      rcases acceptMark_ahead_of_read hv.unmarked haccept with
        ⟨rfl, opening, mid, hahead, hopening, rfl⟩ | ⟨rfl, rfl⟩
      · obtain ⟨closed, x, hclosed, h⟩ := bind_of_read h
        rw [show v = v.facing (opening :: mid) from congrArg v.facing hahead]
        rcases acceptMark_of_read hv.unmarked hclosed with
          ⟨rfl, closing, others, rfl, hclosing, rfl⟩ | ⟨rfl, rfl⟩
        · obtain ⟨more, y, hmore, h⟩ := bind_of_read h
          obtain ⟨rfl, rfl⟩ := pure_of_read h
          have hothers : (v.facing others).Regular := ⟨hv.unmarked, hv.keywordFree⟩
          exact .unsized hopening hclosing (ih hothers (rule_of_read hmore))
        · obtain ⟨size, x, hsize, h⟩ := bind_of_read h
          obtain ⟨close, y, hclose, h⟩ := bind_of_read h
          obtain ⟨more, z, hmore, h⟩ := bind_of_read h
          obtain ⟨rfl, rfl⟩ := pure_of_read h
          have htakes := takes_of_readAt (rule_of_read hsize)
          have hx : x.Regular :=
            View.Regular.rule (v := v.facing mid) ⟨hv.unmarked, hv.keywordFree⟩ htakes
          obtain ⟨closing, others, hahead, hclosing, rfl⟩ :=
            expectMark_ahead_of_read hx.unmarked hclose
          have hothers : (x.facing others).Regular := ⟨hx.unmarked, hx.keywordFree⟩
          exact .sized hopening htakes hahead hclosing (ih hothers (rule_of_read hmore))
      · obtain ⟨parenthesis, x, haccept, h⟩ := bind_of_read h
        rcases acceptMark_ahead_of_read hv.unmarked haccept with
          ⟨rfl, opening, mid, hahead, hopening, rfl⟩ | ⟨rfl, rfl⟩
        · obtain ⟨list, x, hlist, h⟩ := bind_of_read h
          obtain ⟨more, z, hmore, h⟩ := bind_of_read h
          obtain ⟨rfl, rfl⟩ := pure_of_read h
          have hx : x.Regular := View.Regular.orderly (v := v.facing mid)
            ⟨hv.unmarked, hv.keywordFree⟩ orderly_parameterList ⟨depth, hlist⟩
          rw [show v = v.facing (opening :: mid) from congrArg v.facing hahead]
          exact .parameters hopening ⟨depth, hlist⟩ (ih hx (rule_of_read hmore))
        · obtain ⟨rfl, rfl⟩ := pure_of_read h
          exact .nil v

/-- Behind a parenthesis a declarator without a name begins with one of three marks. -/
theorem opensDeclarator_of_read {reader : Reader} {opens : Bool}
    (h : (opensDeclarator .nameless).read reader (v.facing b) = some (opens, w)) :
    w = v.facing b ∧ (opens = true → ∃ opening first others, b = opening :: first :: others ∧
      ∃ mark, v.kind first = .punctuator mark ∧
        (mark = .asterisk ∨ mark = .openParen ∨ mark = .openBracket)) := by
  obtain ⟨second, u, hpeek, h⟩ := bind_of_read h
  obtain ⟨rfl, hsecond⟩ := peekNth_of_read hpeek
  -- The end of the text is none of the marks, so a lexeme stands there.
  have behind : ∀ mark : Punctuator, second.kind = .punctuator mark →
      ∃ opening first others, b = opening :: first :: others ∧ v.kind first = .punctuator mark := by
    intro mark hmark
    rcases b with _ | ⟨opening, _ | ⟨first, others⟩⟩
    · obtain ⟨position, -, rfl⟩ := Option.map_eq_some_iff.1 hsecond
      cases hmark
    · obtain ⟨position, -, rfl⟩ := Option.map_eq_some_iff.1 hsecond
      cases hmark
    · cases hsecond
      exact ⟨opening, first, others, rfl, hmark⟩
  split at h
  case h_1 hkind =>
    obtain ⟨-, rfl⟩ := pure_of_read h
    obtain ⟨opening, first, others, hb, hfirst⟩ := behind _ hkind
    exact ⟨rfl, fun _ => ⟨opening, first, others, hb, _, hfirst, Or.inl rfl⟩⟩
  case h_2 hkind =>
    obtain ⟨-, rfl⟩ := pure_of_read h
    obtain ⟨opening, first, others, hb, hfirst⟩ := behind _ hkind
    exact ⟨rfl, fun _ => ⟨opening, first, others, hb, _, hfirst, Or.inr (Or.inl rfl)⟩⟩
  case h_3 hkind =>
    obtain ⟨-, rfl⟩ := pure_of_read h
    obtain ⟨opening, first, others, hb, hfirst⟩ := behind _ hkind
    exact ⟨rfl, fun _ => ⟨opening, first, others, hb, _, hfirst, Or.inr (Or.inr rfl)⟩⟩
  case h_4 =>
    obtain ⟨rfl, rfl⟩ := pure_of_read h
    exact ⟨rfl, fun hopens => by cases hopens⟩
  case h_5 =>
    obtain ⟨rfl, rfl⟩ := pure_of_read h
    exact ⟨rfl, nofun⟩

/-- The core of a declarator without a name: nothing, or such a declarator in parentheses. -/
theorem declaratorCore_of_read {d : Declarator} (hv : v.Regular)
    (h : (declaratorCore .nameless).read (Parser.readAt depth) (v.facing b) = some (d, w)) :
    w = v.facing b ∨ ∃ opening first closing others after y d', b = opening :: first :: others ∧
      v.kind opening = .punctuator .openParen ∧
      (∃ mark, v.kind first = .punctuator mark ∧
        (mark = .asterisk ∨ mark = .openParen ∨ mark = .openBracket)) ∧
      Parser.readAt depth (.declarator .nameless) (v.facing (first :: others)) = some (d', y) ∧
      y.ahead = closing :: after ∧ y.kind closing = .punctuator .closeParen ∧ w = y.facing after := by
  obtain ⟨token, u, hpeek, h⟩ := bind_of_read h
  obtain ⟨rfl, htoken⟩ := peek_of_read hpeek
  split at h
  case h_1 => exact Or.inl (pure_of_read h).2.symm
  case h_2 => exact Or.inl (pure_of_read h).2.symm
  case h_3 hkind =>
    obtain ⟨opens, u, hopens, h⟩ := bind_of_read h
    obtain ⟨rfl, hbehind⟩ := opensDeclarator_of_read hopens
    cases opens with
    | false => exact Or.inl (pure_of_read h).2.symm
    | true =>
        obtain ⟨opening, first, others, rfl, hmark⟩ := hbehind rfl
        cases htoken
        obtain ⟨_, _, hadvance, h⟩ := bind_of_read h
        obtain ⟨-, rfl⟩ := advance_cons_of_read hv.unmarked hadvance
        obtain ⟨inner, y, hinner, h⟩ := bind_of_read h
        obtain ⟨close, z, hclose, h⟩ := bind_of_read h
        obtain ⟨rfl, rfl⟩ := pure_of_read h
        have hread := rule_of_read hinner
        have hy : y.Regular := View.Regular.rule (v := v.facing (first :: others))
          ⟨hv.unmarked, hv.keywordFree⟩ (takes_of_readAt hread)
        obtain ⟨closing, after, hahead, hclosing, rfl⟩ :=
          expectMark_ahead_of_read hy.unmarked hclose
        exact Or.inr ⟨opening, first, closing, others, after, y, inner, rfl, hkind, hmark, hread,
          hahead, hclosing, rfl⟩
  case h_4 => exact Or.inl (pure_of_read h).2.symm

theorem abstract_of_readAt {d : Declarator} (hv : v.Regular)
    (h : Parser.readAt depth (.declarator .nameless) v = some (d, w)) : v.Abstract w := by
  induction depth generalizing v w d with
  | zero => cases h
  | succ depth ih =>
      obtain ⟨count, x, hpointers, h⟩ := bind_of_read h
      obtain ⟨core, y, hcore, h⟩ := bind_of_read h
      obtain ⟨modifiers, z, hsuffixes, h⟩ := bind_of_read h
      obtain ⟨rfl, rfl⟩ := pure_of_read h
      have hx : x.Regular := hv.orderly orderly_pointers ⟨depth, hpointers⟩
      have hy : y.Regular := hx.orderly (orderly_declaratorCore .nameless) ⟨depth, hcore⟩
      have hfront : v.Pointers x := pointers_of_read hv.unmarked hpointers
      have hrule : Parser.readAt (depth + 1) .suffixes y = some (modifiers, z) := hsuffixes
      have hback : y.Suffixes z := suffixes_of_readAt hy hrule
      rcases declaratorCore_of_read (b := x.ahead) hx hcore with
        rfl | ⟨opening, first, closing, others, after, u, d', hahead, hopening, hmark, hinner, hrest,
          hclosing, rfl⟩
      · exact .plain hfront hback
      · have hinside : (x.facing (first :: others)).Regular := ⟨hx.unmarked, hx.keywordFree⟩
        rw [show x = x.facing (opening :: first :: others) from congrArg x.facing hahead] at hfront
        exact .nested hfront hopening hmark (ih hinside hinner) hrest hclosing hback

theorem typeName_of_read {type : CType} (hv : v.Regular)
    (h : typeName.read (Parser.readAt depth) v = some (type, w)) :
    ∃ classes, View.TypeName classes v w := by
  obtain ⟨found, u, hspecifiers, h⟩ := bind_of_read h
  obtain ⟨d, _, hdeclarator, h⟩ := bind_of_read h
  obtain ⟨rfl, rfl⟩ := pure_of_read h
  have hu : u.Regular := hv.orderly orderly_specifiers ⟨depth, hspecifiers⟩
  obtain ⟨classes, hclasses, htype, hstorage⟩ := specifiers_of_read hv hspecifiers
  have hrule : Parser.readAt (depth + 1) (.declarator .nameless) u = some (d, _) := hdeclarator
  exact ⟨classes, htype, hstorage, u, hclasses, abstract_of_readAt hu hrule⟩

end Grammar

/-! ## Runs -/

namespace Parser

variable {origin : Source} {s t : ParserState}

theorem regular_view (h : s.Sound origin) (hm : s.isMarked = false) : s.view.Regular :=
  ⟨ParserState.taken_view hm, h.table⟩

/-- What a type name is read from, wherever one is read: specifiers and a declarator without a name.
Among the specifiers there is one that names a type, and there may be one storage class.  In
parentheses, as in a cast or behind `sizeof`, the first specifier is no storage class. -/
theorem typeName_read (h : s.Sound origin) (hm : s.isMarked = false) :
    (∀ depth type t, runAt depth .typeName s = (.ok type, t) →
      ∃ classes, View.TypeName classes s.view t.view) ∧
    (∀ depth type t, parenthesizedType?.run (runAt depth) s = (.ok (some type), t) →
      ∃ opening closing inside after classes u, s.view.ahead = opening :: inside ∧
        s.view.kind opening = .punctuator .openParen ∧
        View.TypeName classes (s.view.facing inside) u ∧ classes.head? ≠ some .storage ∧
        u.ahead = closing :: after ∧ u.kind closing = .punctuator .closeParen ∧
        t.view = u.facing after) := by
  have hv := regular_view h hm
  refine ⟨fun depth type t hrun => ?_, fun depth type t hrun => ?_⟩
  · obtain ⟨depth', hread⟩ := takes_of_runAt h hm hrun
    exact Grammar.typeName_of_read hv hread
  · obtain ⟨depth', hread⟩ := takes_of_run orderly_parenthesizedType? h hm hrun
    rcases parenthesizedType?_of_read (b := s.view.ahead) hv.unmarked hread with
      ⟨hnone, -⟩ | ⟨opening, first, others, type', u, token, -, hahead, hopening, hfirst, hname, hclose⟩
    · cases hnone
    · have htakes := takes_of_readAt hname
      have hinside : (s.view.facing (first :: others)).Regular := ⟨hv.unmarked, hv.keywordFree⟩
      obtain ⟨closing, after, hrest, hclosing, ht⟩ :=
        expectMark_ahead_of_read (hinside.rule htakes).unmarked hclose
      obtain ⟨depth'', hread'⟩ := htakes
      obtain ⟨classes, hclasses⟩ := Grammar.typeName_of_read hinside hread'
      refine ⟨opening, closing, first :: others, after, classes, u, hahead, hopening, hclasses, ?_,
        hrest, hclosing, ht⟩
      obtain ⟨-, -, x, hspecifiers, -⟩ := hclasses
      intro hstorage
      cases hspecifiers with
      | nil => cases hstorage
      | cons hspecifier _ =>
          cases hstorage
          obtain ⟨piece, _, word, hpieces, hkind, hword⟩ := hspecifier.exists_storageClass
          obtain rfl : first = piece := (List.cons.inj hpieces).1
          -- What opens a type name is no storage class.
          rw [show s.view.kind first = .keyword word from hkind] at hfirst
          cases word <;> simp_all [TokenKind.startsTypeName, Keyword.startsTypeName,
            Keyword.isStorageClass, Keyword.isQualifier, Keyword.isTypeWord, Keyword.isTagged]

/-- A type name in parentheses in which a storage class stands behind the type. -/
theorem typeName_read_static : ∃ type t opening closing inside after classes u,
    parenthesizedType?.run (runAt 8) (withAlias "(T static *(*)[3])x") = (.ok (some type), t) ∧
      (withAlias "(T static *(*)[3])x").view.ahead = opening :: inside ∧
      View.TypeName classes ((withAlias "(T static *(*)[3])x").view.facing inside) u ∧
      classes.head? ≠ some .storage ∧ u.ahead = closing :: after ∧ t.view = u.facing after := by
  have hreads : (parenthesizedType?.run (runAt 8) (withAlias "(T static *(*)[3])x")).1.toOption.any
      Option.isSome = true := by decide +kernel
  rcases hrun : parenthesizedType?.run (runAt 8) (withAlias "(T static *(*)[3])x") with
    ⟨error | _ | type, t⟩
  · simp [hrun, Except.toOption] at hreads
  · simp [hrun, Except.toOption] at hreads
  · obtain ⟨opening, closing, inside, after, classes, u, hahead, -, hclasses, hhead, hrest, -, ht⟩ :=
      (typeName_read (sound_withAlias _) rfl).2 _ _ _ hrun
    exact ⟨type, t, opening, closing, inside, after, classes, u, rfl, hahead, hclasses, hhead, hrest, ht⟩

end Parser

/-- Whether the body returns the size of a type of the name and does nothing else. -/
def FunctionDefinition.returnsSizeOf (function : FunctionDefinition) (name : String) : Bool :=
  match function.body with
  | [.return _ (some (.sizeofType _ type))] => type = .named name
  | _ => false

namespace Parser

/-- A storage class stands in a type name behind `sizeof`, and the program is read all the same. -/
theorem typeName_takes_storageClass : ∃ unit function p q,
    parse "int f(void) { return sizeof(int static); }" none = .ok unit ∧
      function ∈ unit.functions ∧
      function.body = [.return p (some (.sizeofType q (.named "int")))] := by
  have hreads : (parse "int f(void) { return sizeof(int static); }" none).toOption.any
      (fun unit => unit.functions.any (·.returnsSizeOf "int")) = true := by decide +kernel
  rcases hparse : parse "int f(void) { return sizeof(int static); }" none with error | unit
  · simp [hparse, Except.toOption] at hreads
  · simp only [hparse, Except.toOption, Option.any_some] at hreads
    obtain ⟨function, hmem, hbody⟩ := List.any_eq_true.1 hreads
    unfold FunctionDefinition.returnsSizeOf at hbody
    split at hbody
    · rename_i p q type hitems
      rw [of_decide_eq_true hbody] at hitems
      exact ⟨unit, function, p, q, rfl, hmem, hitems⟩
    · cases hbody

end Parser
end CSyntax
