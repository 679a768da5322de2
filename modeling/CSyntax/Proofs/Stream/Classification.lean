import CSyntax.Cursor

/-!
# Classification — words of a lexeme stream and the table in force

A token's kind is its lexeme seen through a symbol table.  This file shows that the lexeme can be
got back from the kind (`SymbolTable.lexeme_classify`) and that bringing a kind up to date is the
same as classifying its lexeme anew (`SymbolTable.refresh_classify`).

Both hold where no reserved word has been declared: a table with a type name `int` would classify
the word as that name, and `Cursor.reclassify` never turns a name back into a keyword.
-/

namespace CSyntax

/-! ## Lexemes of kinds -/

namespace TokenKind

/-- The lexeme that a token of the kind was cut as. -/
def lexeme : TokenKind → Lexeme
  | .identifier name | .typeName name => .word name
  | .punctuator mark => .punctuator mark
  | .keyword word => .word word.spelling
  | .string text => .string text
  | .character text => .character text
  | .integer value => .integer value
  | .floating text => .floating text
  | .endOfFile => .endOfFile

end TokenKind

/-- Whether a word is left to the program. -/
def Unreserved (name : String) : Prop :=
  Keyword.ofSpelling? name = none

namespace SymbolTable

@[simp] theorem lexeme_classify (table : SymbolTable) (w : Lexeme) :
    (table.classify w).lexeme = w := by
  cases w with
  | word name =>
      simp only [classify, classifyWord]
      split
      · rfl
      · split
        · rename_i word hword
          simp only [TokenKind.lexeme, Keyword.ofSpelling?_eq_some hword]
        · rfl
  | _ => rfl

@[simp] theorem classify_eq_endOfFile (table : SymbolTable) (w : Lexeme) :
    table.classify w = .endOfFile ↔ w = .endOfFile := by
  constructor
  · intro h
    rw [← lexeme_classify table w, h]
    rfl
  · rintro rfl
    rfl

theorem classify_eq_identifier {table : SymbolTable} {w : Lexeme} {name : String} :
    table.classify w = .identifier name ↔
      w = .word name ∧ table.isTypeName name = false ∧ Unreserved name := by
  constructor
  · intro h
    have hw : w = .word name := by rw [← lexeme_classify table w, h]; rfl
    subst hw
    simp only [classify, classifyWord] at h
    split at h
    · cases h
    · split at h
      · cases h
      · exact ⟨rfl, by simp_all, ‹_›⟩
  · rintro ⟨rfl, htype, hword⟩
    simp [classify, classifyWord, htype, show Keyword.ofSpelling? name = none from hword]

theorem classify_eq_typeName {table : SymbolTable} {w : Lexeme} {name : String} :
    table.classify w = .typeName name ↔ w = .word name ∧ table.isTypeName name = true := by
  constructor
  · intro h
    have hw : w = .word name := by rw [← lexeme_classify table w, h]; rfl
    subst hw
    simp only [classify, classifyWord] at h
    split at h
    · exact ⟨rfl, ‹_›⟩
    · split at h <;> cases h
  · rintro ⟨rfl, htype⟩
    simp [classify, classifyWord, htype]

@[simp] theorem isTypeName_enter (table : SymbolTable) (kind : ScopeKind) (name : String) :
    (table.enter kind).isTypeName name = table.isTypeName name := by
  simp [isTypeName, type?]

@[simp] theorem classify_enter (table : SymbolTable) (kind : ScopeKind) (w : Lexeme) :
    (table.enter kind).classify w = table.classify w := by
  cases w <;> simp [classify, classifyWord]

/-! ## Tables that leave reserved words alone -/

/-- No reserved word is bound in any scope. -/
structure KeywordFree (table : SymbolTable) : Prop where
  nested : ∀ scope ∈ table.nested, ∀ b ∈ scope.bindings, Unreserved b.1
  file : ∀ b ∈ table.file, Unreserved b.1

theorem keywordFree_empty : KeywordFree .empty :=
  { nested := by simp [empty], file := by simp [empty] }

theorem unreserved_of_mem_insert {α : Type} {bindings : Bindings α} {name : String} {value : α}
    (h : ∀ b ∈ bindings, Unreserved b.1) (hname : Unreserved name) :
    ∀ b ∈ bindings.insert name value, Unreserved b.1 := by
  intro b hb
  rcases List.mem_cons.1 hb with rfl | hb
  · exact hname
  · exact h b (List.mem_filter.1 hb).1

namespace KeywordFree

variable {table : SymbolTable}

theorem enter (h : table.KeywordFree) (kind : ScopeKind) : (table.enter kind).KeywordFree := by
  refine { nested := ?_, file := h.file }
  intro scope hscope
  rcases List.mem_cons.1 hscope with rfl | hscope
  · simp [Scope.fresh]
  · exact h.nested scope hscope

theorem leave (h : table.KeywordFree) {outer : SymbolTable} (hleave : table.leave? = some outer) :
    outer.KeywordFree := by
  unfold leave? at hleave
  split at hleave
  · rename_i scope scopes hnested
    cases hleave
    refine { nested := fun s hs => h.nested s ?_, file := h.file }
    rw [hnested]
    exact List.mem_cons_of_mem _ hs
  · cases hleave

theorem declare (h : table.KeywordFree) {name : String} (hname : Unreserved name)
    (meaning : Meaning) : (table.declare name meaning).KeywordFree := by
  unfold SymbolTable.declare
  split
  · rename_i scope outer hnested
    refine { nested := ?_, file := h.file }
    intro s hs
    rcases List.mem_cons.1 hs with rfl | hs
    · exact unreserved_of_mem_insert (h.nested scope (by simp [hnested])) hname
    · exact h.nested s (by simp [hnested, hs])
  · exact { nested := h.nested, file := unreserved_of_mem_insert h.file hname }

theorem declareInBlock {name : String} (hname : Unreserved name) {scopes nested : List Scope}
    (h : ∀ scope ∈ scopes, ∀ b ∈ scope.bindings, Unreserved b.1)
    (hdeclare : declareInBlock? name scopes = some nested) :
    ∀ scope ∈ nested, ∀ b ∈ scope.bindings, Unreserved b.1 := by
  induction scopes generalizing nested with
  | nil => cases hdeclare
  | cons scope outer ih =>
      have houter : ∀ s ∈ outer, ∀ b ∈ s.bindings, Unreserved b.1 :=
        fun s hs => h s (List.mem_cons_of_mem _ hs)
      simp only [declareInBlock?] at hdeclare
      split at hdeclare
      · cases hdeclare
        intro s hs
        rcases List.mem_cons.1 hs with rfl | hs
        · exact unreserved_of_mem_insert (h scope List.mem_cons_self) hname
        · exact houter s hs
      · obtain ⟨inner, hinner, rfl⟩ := Option.map_eq_some_iff.1 hdeclare
        intro s hs
        rcases List.mem_cons.1 hs with rfl | hs
        · exact h s List.mem_cons_self
        · exact ih houter hinner s hs

theorem declareEnumerator (h : table.KeywordFree) {name : String} (hname : Unreserved name) :
    (table.declareEnumerator name).KeywordFree := by
  unfold SymbolTable.declareEnumerator
  split
  · rename_i nested hnested
    exact { nested := declareInBlock hname h.nested hnested, file := h.file }
  · exact { nested := h.nested, file := unreserved_of_mem_insert h.file hname }

theorem unreserved_of_get? {α : Type} {bindings : Bindings α} {name : String} {value : α}
    (h : ∀ b ∈ bindings, Unreserved b.1) (hget : bindings.get? name = some value) :
    Unreserved name := by
  unfold Bindings.get? at hget
  obtain ⟨b, hb, -⟩ := Option.map_eq_some_iff.1 hget
  have hname : b.1 = name := by simpa using List.find?_some hb
  exact hname ▸ h b (List.mem_of_find?_eq_some hb)

theorem unreserved_of_isTypeName (h : table.KeywordFree) {name : String}
    (htype : table.isTypeName name = true) : Unreserved name := by
  have hlookup : ∃ meaning, table.lookup? name = some meaning := by
    cases hl : table.lookup? name with
    | none => simp [isTypeName, type?, hl] at htype
    | some meaning => exact ⟨meaning, rfl⟩
  obtain ⟨meaning, hmeaning⟩ := hlookup
  unfold lookup? at hmeaning
  rcases hnested : table.nested.findSome? (fun scope => scope.bindings.get? name) with _ | m
  · rw [hnested] at hmeaning
    exact unreserved_of_get? h.file hmeaning
  · obtain ⟨scope, hscope, hget⟩ := List.exists_of_findSome?_eq_some hnested
    exact unreserved_of_get? (h.nested scope hscope) hget

theorem classify_keyword (h : table.KeywordFree) (word : Keyword) :
    table.classify (.word word.spelling) = .keyword word := by
  have hname : table.isTypeName word.spelling = false := by
    rw [Bool.eq_false_iff]
    intro htype
    have := h.unreserved_of_isTypeName htype
    simp [Unreserved] at this
  simp [classify, classifyWord, hname]

end KeywordFree

theorem classify_unreserved (table : SymbolTable) {word : String} (h : Unreserved word) :
    table.classify (.word word) = .identifier word ∨ table.classify (.word word) = .typeName word := by
  unfold Unreserved at h
  by_cases hname : table.isTypeName word = true
  · exact Or.inr (by simp [classify, classifyWord, hname])
  · exact Or.inl (by simp [classify, classifyWord, hname, h])

/-! ## Classifying anew -/

@[simp] theorem lexeme_refresh (table : SymbolTable) (kind : TokenKind) :
    (Cursor.reclassify.refresh table kind).lexeme = kind.lexeme := by
  unfold Cursor.reclassify.refresh
  split
  · split <;> rfl
  · split <;> rfl
  · rfl

/-- A kind that is brought up to date is the one that lexing anew would give. -/
theorem refresh_classify {old new : SymbolTable} (hold : old.KeywordFree) (hnew : new.KeywordFree)
    (w : Lexeme) : Cursor.reclassify.refresh new (old.classify w) = new.classify w := by
  cases w with
  | word name =>
      cases hkind : old.classify (.word name) with
      | identifier other =>
          obtain ⟨hname, -, hword⟩ := classify_eq_identifier.1 hkind
          cases hname
          simp only [Unreserved] at hword
          simp only [Cursor.reclassify.refresh, classify, classifyWord, hword]
      | typeName other =>
          obtain ⟨hname, htype⟩ := classify_eq_typeName.1 hkind
          cases hname
          have hword : Keyword.ofSpelling? name = none := hold.unreserved_of_isTypeName htype
          simp only [Cursor.reclassify.refresh, classify, classifyWord, hword]
      | keyword word =>
          have hspelling : word.spelling = name := by
            simpa [hkind, TokenKind.lexeme] using lexeme_classify old (.word name)
          subst hspelling
          -- A reserved word is no type name in the new table either.
          have htype : new.isTypeName word.spelling = false := by
            refine Bool.eq_false_iff.2 fun h => ?_
            have hword : Keyword.ofSpelling? word.spelling = none := hnew.unreserved_of_isTypeName h
            simp at hword
          simp [Cursor.reclassify.refresh, classify, classifyWord, htype]
      | _ =>
          have := lexeme_classify old (.word name)
          simp [hkind, TokenKind.lexeme] at this
  | _ => rfl

end SymbolTable

end CSyntax
