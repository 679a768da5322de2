import CSyntax.Proofs.Declarator.Combinations
import CSyntax.Proofs.Expression.Exactness
import CSyntax.Proofs.Run.Inversion
import CSyntax.Proofs.Run.Parts
import Mathlib.Algebra.Group.Nat.Defs
import Mathlib.Logic.Relation

/-!
# Specifiers — keywords in front of a declarator, in any order

Storage classes, qualifiers and the keywords of an arithmetic type may stand in any order in front
of a declarator.  They are read if there is one storage class at most and the type words name a
type, and what is read tells which words there were, not how they stood
(`Parser.specifiers_any_order`).

* `SpecifierTally.take?` — what one keyword makes of a tally;
* `SpecifierTally.Holds` — a tally of words that have been read;
* `Keyword.Admissible` — words that may be read, perhaps with others behind them;
* `ParserState.StandsBefore` — the words come next, and behind them what is no specifier;
* `Specifiers.Denotes` — specifiers that tell of the words.
-/

namespace CSyntax

open Script Grammar

variable {words others : List Keyword} {word : Keyword} {tally next : SpecifierTally}

/-! ## Words and tallies -/

/-- The keyword of a storage class. -/
def StorageClass.keyword : StorageClass → Keyword
  | .external => .external
  | .static => .static
  | .auto => .auto
  | .register => .register

theorem StorageClass.isStorageClass_keyword (c : StorageClass) :
    c.keyword.isStorageClass = true := by
  cases c <;> rfl

/-- The storage class of a keyword; `typedef` stands for none. -/
def StorageClass.ofKeyword? : Keyword → Option StorageClass
  | .external => some .external
  | .static => some .static
  | .auto => some .auto
  | .register => some .register
  | _ => none

theorem StorageClass.ofKeyword?_eq_some_iff {c : StorageClass} :
    ofKeyword? word = some c ↔ c.keyword = word := by
  cases word <;> cases c <;> decide

namespace Keyword

/-- Keywords that are specifiers by themselves. -/
def isSpecifier (word : Keyword) : Bool :=
  word.isStorageClass || word.isQualifier || word.isTypeWord

/-- There is one storage class at most, and what type words there are name a type. -/
structure Admissible (words : List Keyword) : Prop where
  storage : words.countP isStorageClass ≤ 1
  type : words.filter isTypeWord ≠ [] → ∃ name, ArithmeticType.Names (words.filter isTypeWord) name

/-- What has been read of admissible words is admissible. -/
theorem Admissible.of_append (h : Admissible (words ++ others)) : Admissible words where
  storage := by
    have hall := h.storage
    rw [List.countP_append] at hall
    omega
  type hne := by
    have hall := h.type
    rw [List.filter_append] at hall
    obtain ⟨name, hname⟩ := hall (by simp [hne])
    exact hname.subperm (List.sublist_append_left _ _).subperm hne

/-- A storage class needs words without one in front of it, and a type word needs type words with
which it names a type. -/
theorem Admissible.concat_iff (h : Admissible words) :
    Admissible (words ++ [word]) ↔
      (word.isStorageClass = true → words.countP isStorageClass = 0) ∧
      (word.isTypeWord = true →
        ∃ name, ArithmeticType.Names (words.filter isTypeWord ++ [word]) name) := by
  constructor
  · intro hall
    refine ⟨fun hstorage => ?_, fun htype => ?_⟩
    · have hcount := hall.storage
      rw [List.countP_append, List.countP_singleton, if_pos hstorage] at hcount
      omega
    · have hnames := hall.type
      rw [List.filter_append, List.filter_singleton, htype] at hnames
      exact hnames (by simp)
  · rintro ⟨hstorage, htype⟩
    refine ⟨?_, ?_⟩
    · rw [List.countP_append, List.countP_singleton]
      split
      · rename_i hclass
        rw [hstorage hclass]
      · exact h.storage
    · rw [List.filter_append, List.filter_singleton]
      cases hword : word.isTypeWord with
      | true => exact fun _ => htype hword
      | false => simpa using h.type

end Keyword

namespace SpecifierTally

@[simp] theorem words_addModifier (tally : SpecifierTally) (word : Keyword) :
    (tally.addModifier word).words = tally.words := by
  cases word <;> rfl

@[simp] theorem storage_addModifier (tally : SpecifierTally) (word : Keyword) :
    (tally.addModifier word).storage = (StorageClass.ofKeyword? word).or tally.storage := by
  cases word <;> rfl

@[simp] theorem isTypedef_addModifier (tally : SpecifierTally) (word : Keyword) :
    (tally.addModifier word).isTypedef = (tally.isTypedef || word = .typedef) := by
  cases word <;> simp [addModifier]

@[simp] theorem const_addModifier (tally : SpecifierTally) (word : Keyword) :
    (tally.addModifier word).qualifiers.const = (tally.qualifiers.const || word = .const) := by
  cases word <;> simp [addModifier]

@[simp] theorem volatile_addModifier (tally : SpecifierTally) (word : Keyword) :
    (tally.addModifier word).qualifiers.volatile =
      (tally.qualifiers.volatile || word = .volatile) := by
  cases word <;> simp [addModifier]

/-- What a keyword that comes next makes of the tally, if it may come next. -/
def take? (tally : SpecifierTally) (word : Keyword) : Option SpecifierTally :=
  if word.isStorageClass then
    if tally.hasStorageClass then none else some (tally.addModifier word)
  else if word.isQualifier then some (tally.addModifier word)
  else if (ArithmeticType.canonical? (tally.words ++ [word])).isSome then
    some { tally with words := tally.words ++ [word] }
  else none

theorem other_of_take? (h : tally.take? word = some next) : next.other = tally.other := by
  unfold take? at h
  split at h
  · obtain ⟨-, hnext⟩ := Option.ite_none_left_eq_some.1 h
    rw [← Option.some_inj.1 hnext, other_addModifier]
  · split at h
    · rw [← Option.some_inj.1 h, other_addModifier]
    · obtain ⟨-, hnext⟩ := Option.ite_none_right_eq_some.1 h
      rw [← Option.some_inj.1 hnext]

/-- The tally is that of the words, and of nothing else. -/
structure Holds (tally : SpecifierTally) (words : List Keyword) : Prop where
  typeWords : tally.words = words.filter Keyword.isTypeWord
  other : tally.other = none
  storage : ∀ c, tally.storage = some c ↔ c.keyword ∈ words
  isTypedef : tally.isTypedef = true ↔ .typedef ∈ words
  const : tally.qualifiers.const = true ↔ .const ∈ words
  volatile : tally.qualifiers.volatile = true ↔ .volatile ∈ words

theorem holds_empty : Holds .empty [] where
  typeWords := rfl
  other := rfl
  storage := by simp [empty]
  isTypedef := by simp [empty]
  const := by simp [empty]
  volatile := by simp [empty]

namespace Holds

theorem hasStorageClass_iff (h : tally.Holds words) :
    tally.hasStorageClass = true ↔ 0 < words.countP Keyword.isStorageClass := by
  rw [hasStorageClass, Bool.or_eq_true, h.isTypedef, Option.isSome_iff_exists, List.countP_pos_iff]
  constructor
  · rintro (htypedef | ⟨c, hc⟩)
    · exact ⟨_, htypedef, rfl⟩
    · exact ⟨c.keyword, (h.storage c).1 hc, c.isStorageClass_keyword⟩
  · rintro ⟨word, hword, hstorage⟩
    cases word with
    | typedef => exact .inl hword
    | external => exact .inr ⟨.external, (h.storage _).2 hword⟩
    | static => exact .inr ⟨.static, (h.storage _).2 hword⟩
    | auto => exact .inr ⟨.auto, (h.storage _).2 hword⟩
    | register => exact .inr ⟨.register, (h.storage _).2 hword⟩
    | _ => cases hstorage

/-- A qualifier is added anywhere, and a storage class where there is none. -/
theorem modifier (h : tally.Holds words) (hword : word.isTypeWord = false)
    (hnone : word.isStorageClass = true → tally.storage = none) :
    (tally.addModifier word).Holds (words ++ [word]) where
  typeWords := by simp [h.typeWords, hword]
  other := by simp [h.other]
  storage c := by
    rw [storage_addModifier, Option.or_eq_some_iff, StorageClass.ofKeyword?_eq_some_iff,
      List.mem_append, List.mem_singleton]
    constructor
    · rintro (hnew | ⟨-, hold⟩)
      · exact .inr hnew
      · exact .inl ((h.storage c).1 hold)
    · rintro (hold | hnew)
      · have hsome := (h.storage c).2 hold
        refine .inr ⟨Option.eq_none_iff_forall_ne_some.2 fun d hd => ?_, hsome⟩
        rw [StorageClass.ofKeyword?_eq_some_iff] at hd
        rw [hnone (hd ▸ d.isStorageClass_keyword)] at hsome
        cases hsome
      · exact .inl hnew
  isTypedef := by simp [h.isTypedef, @eq_comm _ word]
  const := by simp [h.const, @eq_comm _ word]
  volatile := by simp [h.volatile, @eq_comm _ word]

theorem typeWord (h : tally.Holds words) (hword : word.isTypeWord = true) :
    { tally with words := tally.words ++ [word] }.Holds (words ++ [word]) := by
  have hne : ∀ k : Keyword, k.isTypeWord = false → k ≠ word := by
    rintro k hk rfl
    rw [hword] at hk
    cases hk
  have hstorage : ∀ c : StorageClass, c.keyword ≠ word := fun c => hne _ (by cases c <;> rfl)
  exact
    { typeWords := by simp [h.typeWords, hword]
      other := h.other
      storage := fun c => by simp [h.storage, hstorage c]
      isTypedef := by simp [h.isTypedef, hne .typedef rfl]
      const := by simp [h.const, hne .const rfl]
      volatile := by simp [h.volatile, hne .volatile rfl] }

end Holds

/-- If one word more is read it is in the tally, and it is read just if the words with it are
admissible. -/
def Follows (tally : SpecifierTally) (words : List Keyword) (word : Keyword) : Prop :=
  (∀ next, tally.take? word = some next → next.Holds (words ++ [word])) ∧
    ((tally.take? word).isSome = true ↔ Keyword.Admissible (words ++ [word]))

theorem follows_storageClass (h : tally.Holds words) (hwords : Keyword.Admissible words)
    (hword : word.isStorageClass = true) : tally.Follows words word := by
  have htype : word.isTypeWord = false := by
    cases word <;> first | rfl | cases hword
  rw [Follows, hwords.concat_iff, take?, if_pos hword]
  cases hclass : tally.hasStorageClass with
  | true =>
      have hcount := h.hasStorageClass_iff.1 hclass
      simp only [if_true, Option.isSome_none, Bool.false_eq_true, false_iff, not_and]
      exact ⟨nofun, fun hnone => absurd (hnone hword) (Nat.ne_of_gt hcount)⟩
  | false =>
      have hcount : words.countP Keyword.isStorageClass = 0 := by
        simpa [hclass] using h.hasStorageClass_iff
      have hnone : tally.storage = none := by
        simp only [hasStorageClass, Bool.or_eq_false_iff] at hclass
        simpa using hclass.2
      refine ⟨?_, by simp [hcount, htype]⟩
      rintro _ ⟨⟩
      exact h.modifier htype fun _ => hnone

theorem follows_qualifier (h : tally.Holds words) (hwords : Keyword.Admissible words)
    (hword : word.isQualifier = true) : tally.Follows words word := by
  have hclasses : word.isStorageClass = false ∧ word.isTypeWord = false := by
    cases word <;> first | exact ⟨rfl, rfl⟩ | cases hword
  rw [Follows, hwords.concat_iff, take?, if_neg (by simp [hclasses.1]), if_pos hword]
  refine ⟨?_, by simp [hclasses]⟩
  rintro _ ⟨⟩
  exact h.modifier hclasses.2 fun hclass => by simp [hclasses.1] at hclass

theorem follows_typeWord (h : tally.Holds words) (hwords : Keyword.Admissible words)
    (hword : word.isTypeWord = true) : tally.Follows words word := by
  have hclasses : word.isStorageClass = false ∧ word.isQualifier = false := by
    cases word <;> first | exact ⟨rfl, rfl⟩ | cases hword
  have hall : ∀ k ∈ words.filter Keyword.isTypeWord ++ [word], k.isTypeWord = true := by
    rw [List.forall_mem_append, List.forall_mem_singleton]
    exact ⟨fun k hk => (List.mem_filter.1 hk).2, hword⟩
  have hnames : (ArithmeticType.canonical? (tally.words ++ [word])).isSome = true ↔
      ∃ name, ArithmeticType.Names (words.filter Keyword.isTypeWord ++ [word]) name := by
    rw [h.typeWords, Option.isSome_iff_exists]
    exact exists_congr fun name => ArithmeticType.canonical?_eq_some_iff hall
  rw [Follows, hwords.concat_iff, take?, if_neg (by simp [hclasses.1]),
    if_neg (by simp [hclasses.2]), ← hnames]
  refine ⟨fun next hnext => ?_, by simp [hclasses.1, hword]⟩
  obtain ⟨-, hnext⟩ := Option.ite_none_right_eq_some.1 hnext
  exact Option.some_inj.1 hnext ▸ h.typeWord hword

theorem follows (h : tally.Holds words) (hwords : Keyword.Admissible words)
    (hword : word.isSpecifier = true) : tally.Follows words word := by
  simp only [Keyword.isSpecifier, Bool.or_eq_true] at hword
  rcases hword with (hstorage | hqualifier) | htype
  · exact follows_storageClass h hwords hstorage
  · exact follows_qualifier h hwords hqualifier
  · exact follows_typeWord h hwords htype

/-- Words are read to their end just if they are admissible, and then they are in the tally. -/
theorem foldlM_take? (hwords : ∀ word ∈ words, word.isSpecifier = true) :
    (∀ tally, words.foldlM take? .empty = some tally → tally.Holds words) ∧
      ((words.foldlM take? .empty).isSome = true ↔ Keyword.Admissible words) := by
  -- The last word is read where those in front of it have been, so the induction is from behind.
  induction words using List.reverseRecOn with
  | nil =>
      refine ⟨?_, ?_⟩
      · rintro _ ⟨⟩
        exact holds_empty
      · exact iff_of_true rfl ⟨by simp, by simp⟩
  | append_singleton words word ih =>
      rw [List.forall_mem_append, List.forall_mem_singleton] at hwords
      obtain ⟨hholds, hsome⟩ := ih hwords.1
      rw [List.foldlM_append]
      simp only [List.foldlM_cons, List.foldlM_nil, bind_pure]
      cases hread : words.foldlM take? .empty with
      | none =>
          rw [hread] at hsome
          have hnot : ¬ Keyword.Admissible (words ++ [word]) := fun hall => by
            simpa using hsome.2 hall.of_append
          exact ⟨nofun, by simpa using hnot⟩
      | some tally =>
          have hadmissible := hsome.1 (by rw [hread]; rfl)
          exact follows (hholds tally hread) hadmissible hwords.2

end SpecifierTally

/-! ## Keywords are read -/

namespace Grammar

variable {v : View} {piece : Piece} {pieces after : List Piece} {reader : Reader} {depth : Nat}

theorem read_peek {token : Token} (h : v.token? 0 = some token) :
    peek.read reader v = some (token, v) := by
  rw [peek, Script.read, View.perform, h]
  rfl

theorem read_advance (hv : v.taken = none) :
    advance.read reader (v.facing (piece :: after)) = some (v.next piece, v.facing after) := by
  have hperform : (v.facing (piece :: after)).perform .advance =
      some (v.next piece, v.facing after) := by
    simp [View.perform, View.token?, View.facing, View.next, View.kind, hv]
  exact Option.bind_eq_some_iff.2 ⟨_, hperform, rfl⟩

/-- A keyword of an arithmetic type is taken, but it is refused where the words name no type. -/
theorem read_typeWord (hv : v.taken = none) (hword : word.isTypeWord = true)
    (hother : tally.other = none) (token : Token) :
    (typeWord tally token word).read reader (v.facing (piece :: after)) =
      if (ArithmeticType.canonical? (tally.words ++ [word])).isSome then
        some ({ tally with words := tally.words ++ [word] }, v.facing after)
      else none := by
  rw [typeWord_eq hword, if_neg (by simp [hother]), read_bind, read_advance hv, Option.bind_some]
  dsimp only
  split <;> rfl

/-- A keyword that is a specifier by itself is taken into the tally, or refused. -/
theorem read_specifier (hv : v.taken = none) (hkind : v.kind piece = .keyword word)
    (hword : word.isSpecifier = true) (hother : tally.other = none) :
    (specifier tally).read reader (v.facing (piece :: after)) =
      (tally.take? word).map fun next => (some next, v.facing after) := by
  have htoken : (v.facing (piece :: after)).token? 0 = some (v.next piece) := rfl
  unfold specifier SpecifierTally.take?
  rw [read_bind, read_peek htoken, Option.bind_some]
  simp only [View.kind_next, hkind]
  split
  · split
    · rfl
    · rw [read_bind, read_advance hv]
      rfl
  · split
    · rw [read_bind, read_advance hv]
      rfl
    · rename_i hstorage hqualifier
      have htype : word.isTypeWord = true := by
        simpa [Keyword.isSpecifier, hstorage, hqualifier] using hword
      rw [if_pos htype, read_bind, read_typeWord hv htype hother]
      split <;> rfl

/-- What is no specifier is left where it is. -/
theorem read_specifier_none {token : Token} (htoken : v.token? 0 = some token)
    (hkind : token.kind.startsDeclaration = false) :
    (specifier tally).read reader v = some (none, v) := by
  unfold specifier
  rw [read_bind, read_peek htoken, Option.bind_some]
  dsimp only
  split
  · rename_i word hword
    rw [hword] at hkind
    simp only [TokenKind.startsDeclaration, Keyword.startsDeclaration, Keyword.startsTypeName,
      Bool.or_eq_false_iff] at hkind
    obtain ⟨hstorage, ⟨hqualifier, htype⟩, htagged⟩ := hkind
    simp only [hstorage, hqualifier, htype, htagged, Bool.false_eq_true, if_false]
    rfl
  · rename_i name hname
    rw [hname] at hkind
    cases hkind
  · rfl

/-- Keywords are taken one after the other, up to what is no specifier. -/
theorem read_specifierTail {token : Token} (hv : v.taken = none)
    (hpieces : pieces.map v.kind = words.map .keyword)
    (hwords : ∀ word ∈ words, word.isSpecifier = true) (hother : tally.other = none)
    (htoken : (v.facing after).token? 0 = some token)
    (hkind : token.kind.startsDeclaration = false) (hdepth : words.length ≤ depth) :
    (specifierTail tally).read (Parser.readAt depth) (v.facing (pieces ++ after)) =
      (words.foldlM SpecifierTally.take? tally).map fun result => (result, v.facing after) := by
  -- The tally is general, since each keyword changes it.
  induction words generalizing pieces tally depth with
  | nil =>
      obtain rfl : pieces = [] := by simpa using hpieces
      unfold specifierTail
      rw [List.nil_append, read_bind, read_specifier_none htoken hkind]
      rfl
  | cons word words ih =>
      obtain ⟨hword, hothers⟩ := List.forall_mem_cons.1 hwords
      cases pieces with
      | nil => cases hpieces
      | cons piece pieces =>
          obtain ⟨hfirst, hrest⟩ := List.cons.inj hpieces
          rw [specifierTail, List.cons_append, read_bind, read_specifier hv hfirst hword hother,
            List.foldlM_cons]
          cases htake : tally.take? word with
          | none => rfl
          | some next =>
              cases depth with
              | zero => cases hdepth
              | succ depth =>
                  have hnext : next.other = none := SpecifierTally.other_of_take? htake ▸ hother
                  refine Eq.trans ?_ (ih hrest hothers hnext (Nat.le_of_succ_le_succ hdepth))
                  exact read_rule (.specifierTail next)

/-- The specifiers are what the keywords tally to, if they name a type. -/
theorem read_specifiers {token : Token} (hv : v.taken = none)
    (hpieces : pieces.map v.kind = words.map .keyword)
    (hwords : ∀ word ∈ words, word.isSpecifier = true)
    (htoken : (v.facing after).token? 0 = some token)
    (hkind : token.kind.startsDeclaration = false) (hdepth : words.length ≤ depth) :
    ∃ position, specifiers.read (Parser.readAt depth) (v.facing (pieces ++ after)) =
      (words.foldlM SpecifierTally.take? .empty).bind fun tally =>
        tally.type?.map fun base =>
          ({ base := base
             storage := tally.storage
             isTypedef := tally.isTypedef
             qualifiers := tally.qualifiers
             position := position }, v.facing after) := by
  obtain ⟨first, hfirst⟩ : ∃ first, (v.facing (pieces ++ after)).token? 0 = some first := by
    cases pieces with
    | nil => exact ⟨token, htoken⟩
    | cons piece pieces => exact ⟨v.next piece, rfl⟩
  have hhere : here.read (Parser.readAt depth) (v.facing (pieces ++ after)) =
      some (first.position, v.facing (pieces ++ after)) := by
    rw [here, read_bind, read_peek hfirst]
    rfl
  refine ⟨first.position, ?_⟩
  rw [specifiers, read_bind, hhere, Option.bind_some]
  dsimp only
  rw [read_bind, read_specifierTail hv hpieces hwords rfl htoken hkind hdepth, Option.bind_map]
  congr 1
  funext tally
  dsimp only [Function.comp_apply]
  cases tally.type? with
  | some base => rfl
  | none =>
      rw [read_bind, read_peek htoken]
      rfl

end Grammar

/-! ## Runs -/

/-- What the words say, the specifiers say: the type that the type words name, the storage class and
the qualifiers, and whether `typedef` is among the words. -/
structure Specifiers.Denotes (specifiers : Specifiers) (words : List Keyword) : Prop where
  base : ∃ name, specifiers.base = .named name ∧
    ArithmeticType.Names (words.filter Keyword.isTypeWord) name
  storage : ∀ c, specifiers.storage = some c ↔ c.keyword ∈ words
  isTypedef : specifiers.isTypedef = true ↔ .typedef ∈ words
  const : specifiers.qualifiers.const = true ↔ .const ∈ words
  volatile : specifiers.qualifiers.volatile = true ↔ .volatile ∈ words

/-- Specifiers for the same words in another order differ in their position alone. -/
theorem Specifiers.Denotes.eq_of_perm {found found' : Specifiers} (h : found.Denotes words)
    (h' : found'.Denotes others) (hperm : others.Perm words) :
    found'.base = found.base ∧ found'.storage = found.storage ∧
      found'.isTypedef = found.isTypedef ∧ found'.qualifiers = found.qualifiers := by
  obtain ⟨name, hbase, hname⟩ := h.base
  obtain ⟨name', hbase', hname'⟩ := h'.base
  have hsame : name' = name := Option.some_inj.1
    (hname'.canonical?_eq.symm.trans (hname.perm (hperm.filter _)).canonical?_eq)
  have hconst : found'.qualifiers.const = found.qualifiers.const := by
    rw [Bool.eq_iff_iff, h.const, h'.const, hperm.mem_iff]
  have hvolatile : found'.qualifiers.volatile = found.qualifiers.volatile := by
    rw [Bool.eq_iff_iff, h.volatile, h'.volatile, hperm.mem_iff]
  refine ⟨by rw [hbase, hbase', hsame], Option.ext fun c => ?_, ?_, ?_⟩
  · rw [h'.storage, h.storage, hperm.mem_iff]
  · rw [Bool.eq_iff_iff, h.isTypedef, h'.isTypedef, hperm.mem_iff]
  · exact (Qualifiers.mk.injEq ..).mpr ⟨hconst, hvolatile⟩

/-- The words come next, each of them a specifier by itself, and behind them a token that is no
specifier.  The state is one that a run comes to where declarations are read. -/
structure ParserState.StandsBefore (s : ParserState) (words : List Keyword) (after : List Piece) :
    Prop where
  sound : ∃ origin, s.Sound origin
  unmarked : s.isMarked = false
  specifiers : ∀ word ∈ words, word.isSpecifier = true
  ahead : ∃ pieces, s.view.ahead = pieces ++ after ∧ pieces.map s.view.kind = words.map .keyword
  stops : ∃ token, (s.view.facing after).token? 0 = some token ∧
    token.kind.startsDeclaration = false

namespace SpecifierTally.Holds

theorem type?_eq_some_iff {base : CType} (h : tally.Holds words) :
    tally.type? = some base ↔ ∃ name, base = .named name ∧
      ArithmeticType.Names (words.filter Keyword.isTypeWord) name := by
  have hwords : ∀ k ∈ words.filter Keyword.isTypeWord, k.isTypeWord = true := fun k hk =>
    (List.mem_filter.1 hk).2
  rw [type?, h.other, h.typeWords, Option.map_eq_some_iff]
  exact exists_congr fun name => by
    rw [ArithmeticType.canonical?_eq_some_iff hwords, and_comm, eq_comm]

theorem denotes {base : CType} (h : tally.Holds words) (hbase : tally.type? = some base)
    (position : Position) :
    Specifiers.Denotes
      { base := base
        storage := tally.storage
        isTypedef := tally.isTypedef
        qualifiers := tally.qualifiers
        position := position } words where
  base := h.type?_eq_some_iff.1 hbase
  storage := h.storage
  isTypedef := h.isTypedef
  const := h.const
  volatile := h.volatile

end SpecifierTally.Holds

namespace Parser

variable {s t : ParserState} {after : List Piece} {depth : Nat}

/-- The words are read just if there is one storage class at most and the type words name a type;
they are all that is read, and the specifiers denote them. -/
theorem specifiers_run (h : s.StandsBefore words after) (hdepth : words.length ≤ depth) :
    ((∃ found t, specifiers.run (runAt depth) s = (.ok found, t)) ↔
      words.countP Keyword.isStorageClass ≤ 1 ∧
        ∃ name, ArithmeticType.Names (words.filter Keyword.isTypeWord) name) ∧
    ∀ found t, specifiers.run (runAt depth) s = (.ok found, t) →
      found.Denotes words ∧ t.view = s.view.facing after := by
  obtain ⟨origin, hsound⟩ := h.sound
  obtain ⟨pieces, hahead, hpieces⟩ := h.ahead
  obtain ⟨token, htoken, hkind⟩ := h.stops
  have houtcome := outcome_of_orderly orderly_specifiers hsound h.unmarked depth
  obtain ⟨position, hread⟩ := read_specifiers (ParserState.taken_view h.unmarked) hpieces
    h.specifiers htoken hkind hdepth
  have hfacing : s.view.facing (pieces ++ after) = s.view := by rw [← hahead]; rfl
  rw [hfacing] at hread
  rw [hread] at houtcome
  -- What the run gives is decided by the tally alone.
  obtain ⟨hholds, hadmissible⟩ := SpecifierTally.foldlM_take? h.specifiers
  have hread : ∀ found t, specifiers.run (runAt depth) s = (.ok found, t) →
      Keyword.Admissible words ∧ found.Denotes words ∧ t.view = s.view.facing after := by
    intro found t hrun
    rw [hrun] at houtcome
    obtain ⟨tally, htally, hfound⟩ := Option.bind_eq_some_iff.1 houtcome.symm
    obtain ⟨base, hbase, heq⟩ := Option.map_eq_some_iff.1 hfound
    obtain ⟨rfl, hview⟩ := Prod.mk.inj heq
    exact ⟨hadmissible.1 (by rw [htally]; rfl), (hholds tally htally).denotes hbase position,
      hview.symm⟩
  refine ⟨⟨?_, ?_⟩, fun found t hrun => (hread found t hrun).2⟩
  · rintro ⟨found, t, hrun⟩
    obtain ⟨hwords, hdenotes, -⟩ := hread found t hrun
    obtain ⟨name, -, hname⟩ := hdenotes.base
    exact ⟨hwords.storage, name, hname⟩
  · rintro ⟨hstorage, name, hname⟩
    obtain ⟨tally, htally⟩ :=
      Option.isSome_iff_exists.1 (hadmissible.2 ⟨hstorage, fun _ => ⟨name, hname⟩⟩)
    have hbase := (hholds tally htally).type?_eq_some_iff.2 ⟨name, rfl, hname⟩
    rw [htally, Option.bind_some, hbase, Option.map_some] at houtcome
    rcases hrun : specifiers.run (runAt depth) s with ⟨error | found, t⟩
    · rw [hrun] at houtcome
      cases houtcome
    · exact ⟨found, t, rfl⟩

/-! ## How often words are counted -/

/-- A specifier of any kind has been read, and goes to the tally. -/
def OneMore (before behind : SpecifierTally × ParserState) : Prop :=
  ∃ depth, (specifier before.1).run (runAt depth) before.2 = (.ok (some behind.1), behind.2)

section

variable {callee : Callee} {token : Token}

theorem canonical?_of_typeWord (h : (typeWord tally token word).run callee s = (.ok next, t)) :
    (ArithmeticType.canonical? next.words).isSome = true := by
  unfold typeWord at h
  split at h
  · cases h
  · obtain ⟨_, _, -, h⟩ := run_of_bind h
    split at h
    · split at h
      · rename_i hname
        cases h
        exact hname
      · cases h
    · cases h

theorem words_of_taggedType (h : (taggedType tally token word).run callee s = (.ok next, t)) :
    next.words = tally.words := by
  unfold taggedType at h
  split at h
  · cases h
  · split at h <;>
      · obtain ⟨_, _, -, hdone⟩ := run_of_bind h
        cases hdone
        rfl

/-- Type words are joined by another one only if all of them name a type. -/
theorem words_of_specifier (h : (specifier tally).run callee s = (.ok (some next), t)) :
    next.words = tally.words ∨ (ArithmeticType.canonical? next.words).isSome = true := by
  obtain ⟨token, u, -, h⟩ := run_of_bind h
  split at h
  · split at h
    · split at h
      · cases h
      · obtain ⟨_, _, -, hdone⟩ := run_of_bind h
        cases hdone
        exact .inl (tally.words_addModifier _)
    · split at h
      · obtain ⟨_, _, -, hdone⟩ := run_of_bind h
        cases hdone
        exact .inl (tally.words_addModifier _)
      · split at h
        · obtain ⟨_, _, hword, hdone⟩ := run_of_bind h
          cases hdone
          exact .inr (canonical?_of_typeWord hword)
        · split at h
          · obtain ⟨_, _, htagged, hdone⟩ := run_of_bind h
            cases hdone
            exact .inl (words_of_taggedType htagged)
          · cases h
  · split at h
    · cases h
    · obtain ⟨_, _, -, hdone⟩ := run_of_bind h
      cases hdone
      exact .inl rfl
  · cases h

end

/-- However specifiers are read one behind the other, the type words among them name a type. -/
theorem words_of_oneMore {u : ParserState}
    (h : Relation.ReflTransGen OneMore (.empty, s) (tally, u)) :
    tally.words = [] ∨ (ArithmeticType.canonical? tally.words).isSome = true := by
  generalize hlast : (tally, u) = last at h
  induction h generalizing tally u with
  | refl =>
      cases hlast
      exact .inl rfl
  | tail _ hone ih =>
      subst hlast
      obtain ⟨depth, hrun⟩ := hone
      rcases words_of_specifier hrun with hsame | hname
      · rw [hsame]
        exact ih rfl
      · exact .inr hname

/-- No type word is counted more than three times, the word that comes next included. -/
theorem count_le_of_oneMore {u : ParserState} {k : Keyword}
    (h : Relation.ReflTransGen OneMore (.empty, s) (tally, u)) (hk : k.isTypeWord = true)
    (word : Keyword) : (tally.words ++ [word]).count k ≤ 3 := by
  -- The words that have been read name a type, and the word that comes next is one more.
  have hread : tally.words.count k ≤ 2 := by
    rcases words_of_oneMore h with hnone | hname
    · simp [hnone]
    · have htwice : ∀ k, ArithmeticType.inventory.count k ≤ 2 := by
        intro k
        cases k <;> decide
      exact (ArithmeticType.count_le_of_canonical? hname k hk).trans (htwice k)
  rw [List.count_append]
  exact Nat.add_le_add hread (List.count_le_length (l := [word]))

/-! ## Any order -/

/-- Storage classes, qualifiers and type words in any order in front of what is no specifier: they
are read just if there is one storage class at most and the type words are a combination that names
a type.  Then just they are read, the specifiers denote them, and wherever they stand in another
order the same is read but for the position.  Whatever specifiers have been read one behind the
other, no type word is counted to what eight bits do not hold. -/
theorem specifiers_any_order :
    (∀ s words after depth, ParserState.StandsBefore s words after → words.length ≤ depth →
      ((∃ found t, specifiers.run (runAt depth) s = (.ok found, t)) ↔
        words.countP Keyword.isStorageClass ≤ 1 ∧
          ∃ name, ArithmeticType.Names (words.filter Keyword.isTypeWord) name) ∧
      ∀ found t, specifiers.run (runAt depth) s = (.ok found, t) →
        found.Denotes words ∧ t.view = s.view.facing after ∧
        ∀ s' words' after' depth', ParserState.StandsBefore s' words' after' →
          words'.Perm words → words'.length ≤ depth' →
          ∃ found' t', specifiers.run (runAt depth') s' = (.ok found', t') ∧
            found'.base = found.base ∧ found'.storage = found.storage ∧
            found'.isTypedef = found.isTypedef ∧ found'.qualifiers = found.qualifiers) ∧
    ∀ s tally u, Relation.ReflTransGen OneMore (.empty, s) (tally, u) →
      ∀ word k, k.isTypeWord = true → (tally.words ++ [word]).count k < 2 ^ 8 := by
  refine ⟨fun s words after depth h hdepth => ?_, fun s tally u h word k hk => ?_⟩
  · obtain ⟨hreads, hdenotes⟩ := specifiers_run h hdepth
    refine ⟨hreads, fun found t hrun => ?_⟩
    obtain ⟨hfound, hview⟩ := hdenotes found t hrun
    refine ⟨hfound, hview, fun s' words' after' depth' h' hperm hdepth' => ?_⟩
    obtain ⟨hreads', hdenotes'⟩ := specifiers_run h' hdepth'
    obtain ⟨hstorage, name, hname⟩ := hreads.1 ⟨found, t, hrun⟩
    obtain ⟨found', t', hrun'⟩ := hreads'.2
      ⟨(hperm.countP_eq _).le.trans hstorage, name, hname.perm (hperm.filter _)⟩
    exact ⟨found', t', hrun', hfound.eq_of_perm (hdenotes' found' t' hrun').1 hperm⟩
  · exact Nat.lt_of_le_of_lt (count_le_of_oneMore h hk word) (by decide)

theorem standsBefore_withAlias {text : String} (hwords : ∀ word ∈ words, word.isSpecifier = true)
    (hahead : ((withAlias text).view.ahead.take words.length).map (withAlias text).view.kind =
      words.map .keyword)
    (hstops : (((withAlias text).view.facing
      ((withAlias text).view.ahead.drop words.length)).token? 0).any
        (fun token => !token.kind.startsDeclaration) = true) :
    (withAlias text).StandsBefore words ((withAlias text).view.ahead.drop words.length) where
  sound := ⟨_, sound_withAlias text⟩
  unmarked := rfl
  specifiers := hwords
  ahead := ⟨_, (List.take_append_drop ..).symm, hahead⟩
  stops := by simpa [Option.any_eq_true] using hstops

/-- Seven words in two orders; and a second `long` behind one that has been read. -/
theorem specifiers_any_order_unsigned :
    (∃ found t found' t',
      specifiers.run (runAt 7) (withAlias "const int static long unsigned volatile long x") =
        (.ok found, t) ∧
      found.Denotes [.const, .int, .static, .long, .unsigned, .volatile, .long] ∧
      specifiers.run (runAt 7) (withAlias "unsigned long long volatile int const static (*f)") =
        (.ok found', t') ∧
      found'.base = found.base ∧ found'.qualifiers = found.qualifiers) ∧
    ∃ tally u, (specifier .empty).run (runAt 1) (withAlias "long x") = (.ok (some tally), u) ∧
      tally.words = [.long] ∧
      (tally.words ++ [Keyword.long]).count Keyword.long < 2 ^ 8 := by
  refine ⟨?_, ?_⟩
  · have hstands : (withAlias "const int static long unsigned volatile long x").StandsBefore
        [.const, .int, .static, .long, .unsigned, .volatile, .long] _ :=
      standsBefore_withAlias (by decide) (by decide +kernel) (by decide +kernel)
    have hother : (withAlias "unsigned long long volatile int const static (*f)").StandsBefore
        [.unsigned, .long, .long, .volatile, .int, .const, .static] _ :=
      standsBefore_withAlias (by decide) (by decide +kernel) (by decide +kernel)
    obtain ⟨hreads, hdenotes⟩ := specifiers_any_order.1 _ _ _ 7 hstands (by decide)
    obtain ⟨found, t, hrun⟩ := hreads.2 ⟨by decide, "unsigned long long",
      [.unsigned, .long, .long, .int], by decide, by decide⟩
    obtain ⟨hfound, -, hsame⟩ := hdenotes found t hrun
    obtain ⟨found', t', hrun', hbase, -, -, hqualifiers⟩ :=
      hsame _ _ _ 7 hother (by decide) (by decide)
    exact ⟨found, t, found', t', hrun, hfound, hrun', hbase, hqualifiers⟩
  · have hreads : ((specifier .empty).run (runAt 1) (withAlias "long x")).1.toOption.any
        (fun found => found.any fun tally => tally.words = [.long]) = true := by decide +kernel
    rcases hrun : (specifier .empty).run (runAt 1) (withAlias "long x") with
      ⟨error | _ | tally, u⟩
    · simp [hrun, Except.toOption] at hreads
    · simp [hrun, Except.toOption] at hreads
    · have hwords : tally.words = [.long] := by simpa [hrun, Except.toOption] using hreads
      exact ⟨tally, u, rfl, hwords,
        specifiers_any_order.2 _ tally u (.single ⟨1, hrun⟩) .long .long rfl⟩

end Parser

end CSyntax
