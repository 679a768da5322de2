import CSyntax.Proofs.Prefix.Barring
import CSyntax.Proofs.Prefix.Starving
import CSyntax.Proofs.Run.Consistency
import CSyntax.Proofs.Statement.Reading

/-!
# Completion — what can stand behind lexemes that have run out

A script that starves on some lexemes would go on if more of them came.  This file says with what
lexemes a script can be brought to its end, and how the answer for a script follows from those for
its parts:

* `Filler` and `Sequel` — the lexemes that complete a text, and those that may come behind a part;
* `Script.Opens` — a script that has not begun is read off fillers;
* `Script.Completes` — a script is read off given lexemes and fillers behind them;
* `Script.Resumes` — if the lexemes starve the script, they are completed, or the script is barred;
* `Script.Viable` — all that together, at every table that the script may be begun at.

The lemmas on `Viable` follow the scripts of the grammar: a script that starves does so in its first
part, which is then completed and its rest opened, or its first part has taken its lexemes and the
rest starves on the others.
-/

namespace CSyntax

/-! ## Fillers -/

/-- The lexemes that complete a text. -/
inductive Filler
  | punctuator (mark : Punctuator)
  | zero
  /-- A word that is not reserved. -/
  | name
  | int
  | while
  deriving DecidableEq

namespace Filler

def lexeme : Filler → Lexeme
  | .punctuator mark => .punctuator mark
  | .zero => .integer 0
  | .name => .word "x"
  | .int => .word Keyword.int.spelling
  | .while => .word Keyword.while.spelling

def piece (filler : Filler) : Piece :=
  filler.lexeme.piece

/-- The kinds of token that the filler may be, whatever words have been declared. -/
def kinds : Filler → List TokenKind
  | .punctuator mark => [.punctuator mark]
  | .zero => [.integer 0]
  | .name => [.identifier "x", .typeName "x"]
  | .int => [.keyword .int]
  | .while => [.keyword .while]

theorem classify_name (T : SymbolTable) :
    T.classify name.lexeme = .identifier "x" ∨ T.classify name.lexeme = .typeName "x" :=
  T.classify_unreserved (by decide : Keyword.ofSpelling? "x" = none)

theorem classify_mem_kinds {T : SymbolTable} (hT : T.KeywordFree) (filler : Filler) :
    T.classify filler.lexeme ∈ filler.kinds := by
  cases filler with
  | punctuator mark => exact List.mem_singleton_self _
  | zero => exact List.mem_singleton_self _
  | name => rcases classify_name T with h | h <;> simp [kinds, h]
  | int => exact List.mem_singleton.2 (hT.classify_keyword .int)
  | «while» => exact List.mem_singleton.2 (hT.classify_keyword .while)

end Filler

/-- The fillers of which one comes next. -/
structure Sequel where
  first : Filler
  others : List Filler

theorem SymbolTable.Faces.mono {T : SymbolTable} {P Q : TokenKind → Prop} {pieces : List Piece}
    (h : T.Faces P pieces) (hPQ : ∀ kind, P kind → Q kind) : T.Faces Q pieces := by
  obtain ⟨first, others, rfl, hfirst⟩ := h
  exact ⟨first, others, rfl, hPQ _ hfirst⟩

namespace Sequel

def fillers (S : Sequel) : List Filler :=
  S.first :: S.others

/-- The kinds of token that may come next. -/
def kinds (S : Sequel) : List TokenKind :=
  S.fillers.flatMap Filler.kinds

def only (filler : Filler) : Sequel :=
  { first := filler, others := [] }

/-- The end of a list in braces. -/
def brace : Sequel :=
  only (.punctuator .closeBrace)

/-- What neither an expression nor a declarator goes on with. -/
def closer : Sequel :=
  { first := .zero
    others := .while :: [.closeParen, .closeBracket, .closeBrace, .semicolon, .colon].map
      .punctuator }

/-- What may come behind specifiers: a closer, or the name that is declared. -/
def word : Sequel :=
  { first := .name, others := closer.fillers }

/-- One of the fillers comes next. -/
def Leads (S : Sequel) (pieces : List Piece) : Prop :=
  ∃ filler ∈ S.fillers, ∃ piece others, pieces = piece :: others ∧ piece.lexeme = filler.lexeme

variable {S N : Sequel} {pieces : List Piece} {T : SymbolTable}

theorem Leads.mono (h : N.Leads pieces) (hsub : N.fillers ⊆ S.fillers) : S.Leads pieces := by
  obtain ⟨filler, hmem, hpieces⟩ := h
  exact ⟨filler, hsub hmem, hpieces⟩

theorem leads_cons {filler : Filler} {others : List Filler} (after : List Piece)
    (h : filler ∈ S.fillers) : S.Leads ((filler :: others).map Filler.piece ++ after) :=
  ⟨filler, h, _, _, rfl, rfl⟩

/-- Something that leads. -/
theorem leads_first (S : Sequel) : S.Leads [S.first.piece] :=
  ⟨S.first, List.mem_cons_self, _, _, rfl, rfl⟩

theorem Leads.faces (h : S.Leads pieces) (hT : T.KeywordFree) : T.Faces (· ∈ S.kinds) pieces := by
  obtain ⟨filler, hmem, piece, others, rfl, hlexeme⟩ := h
  have hkind := filler.classify_mem_kinds hT
  exact ⟨piece, others, rfl, List.mem_flatMap.2 ⟨filler, hmem, hlexeme ▸ hkind⟩⟩

end Sequel

/-! ## Tables at which scripts are begun -/

/-- A scope that has been opened can be left. -/
theorem SymbolTable.Frame.exists_leave {T U : SymbolTable} {kind : ScopeKind}
    (h : (T.enter kind).Frame U) : ∃ W, U.leave? = some W ∧ T.Frame W := by
  cases kind with
  | block => exact ⟨T, h.leave_block, .refl T⟩
  | record =>
      cases hleave : U.leave? with
      | none =>
          -- At least the scope just opened stands inside the file scope.
          have hdepth := h.depth
          rw [(U.leave?_eq_none_iff).1 hleave] at hdepth
          cases hdepth
      | some W => exact ⟨W, rfl, h.leave_record hleave⟩

/-- No reserved word has a meaning, and the scopes are as the place asks for. -/
structure Place.Ready (place : Place) (T : SymbolTable) : Prop where
  keywordFree : T.KeywordFree
  holds : place.Holds T

namespace Script

variable {α β : Type} {prog : Script α} {next : α → Script β} {place : Place} {P : α → Prop}
  {Q : β → Prop} {T U : SymbolTable} {p q : List Piece} {O S N : Sequel} {a : α} {b : β}

/-- What the script leaves where it has been carried out: no mark, a table like the one before, and a
value with the property. -/
structure Leaves (place : Place) (P : α → Prop) (T : SymbolTable) (a : α) (w : View) : Prop where
  taken : w.taken = none
  frame : T.Frame w.table
  ready : place.Ready w.table
  value : P a

def Steady (place : Place) (prog : Script α) (P : α → Prop) : Prop :=
  ∀ v a w, v.taken = none → place.Ready v.table → prog.Takes v a w → Leaves place P v.table a w

namespace Steady

theorem of_orderly (horderly : prog.Orderly P) (hkeeps : prog.Keeps true place) :
    prog.Steady place P := by
  intro v a w hv hT htakes
  have hmeets : prog.Meets discipline v.taken.isSome fun a after _ => after = false ∧ P a := by
    rw [hv]
    exact horderly
  obtain ⟨hfree, R, hpost⟩ := Contract.sound_reads (fun v => v.taken.isSome)
    (fun v => v.table.KeywordFree) valid_discipline
    (fun r v answer w hfree may hperform => View.discipline_perform hfree may hperform)
    hT.keywordFree hmeets htakes
  have hframe := htakes.frame hkeeps hT.holds
  exact { taken := by simpa using hpost.1
          frame := hframe
          ready := { keywordFree := hfree, holds := hT.holds.frame hframe }
          value := hpost.2 }

theorem bind (h : prog.Steady place P) (hnext : ∀ a, P a → (next a).Steady place Q) :
    (prog >>= next).Steady place Q := by
  intro v b w hv hT htakes
  obtain ⟨a, u, hprog, hrest⟩ := htakes.exists_bind
  have hfirst := h v a u hv hT hprog
  have hlater := hnext a hfirst.value u b w hfirst.taken hfirst.ready hrest
  exact { hlater with frame := hfirst.frame.trans hlater.frame }

theorem pure (ha : P a) : (Pure.pure a : Script α).Steady place P := by
  rintro v _ w hv hT ⟨depth, hread⟩
  obtain ⟨rfl, rfl⟩ := pure_of_read hread
  exact { taken := hv, frame := .refl _, ready := hT, value := ha }

theorem refuse {token : Token} {grammatical : GrammarFault} :
    (Script.refuse token grammatical).Steady place P := by
  rintro v a w - - ⟨depth, hread⟩
  cases hread

theorem peek : Script.peek.Steady place fun token => AllUnreserved token.kind.words :=
  of_orderly Orderly.peek Restores.peek.keeps

theorem advance : Script.advance.Steady place fun token => AllUnreserved token.kind.words :=
  of_orderly Orderly.advance Restores.advance.keeps

/-- What a rule of the grammar leaves, at a place where it may be called. -/
theorem rule {f : Nonterminal} (hplace : ∀ T, place.Holds T → f.place.Holds T) :
    (Script.rule f).Steady place fun result => AllUnreserved (f.words result) := by
  intro v a w hv hT htakes
  have hready : f.place.Ready v.table :=
    { keywordFree := hT.keywordFree, holds := hplace _ hT.holds }
  have hleaves := of_orderly (Orderly.rule f) (Keeps.ruleAt f) v a w hv hready htakes
  exact { hleaves with
    ready := { keywordFree := hleaves.ready.keywordFree, holds := hT.holds.frame hleaves.frame } }

theorem weaken {P' : α → Prop} (h : prog.Steady place P) (hP : ∀ a, P a → P' a) :
    prog.Steady place P' :=
  fun v a w hv hT htakes =>
    let hleaves := h v a w hv hT htakes
    { hleaves with value := hP a hleaves.value }

theorem named (h : prog.Steady place P) {P' : α → Prop} (hnamed : prog.Named P') :
    prog.Steady place fun a => P a ∧ P' a := by
  intro v a w hv hT htakes
  have hleaves := h v a w hv hT htakes
  obtain ⟨-, -, hvalue⟩ := Contract.sound_reads (fun _ => ()) (fun _ => True) valid_naming
    (fun _ _ _ _ _ _ _ => ⟨trivial, trivial⟩) trivial hnamed htakes
  exact { hleaves with value := ⟨hleaves.value, hvalue⟩ }

end Steady

/-! ## Scripts read off fillers -/

/-- From the table on, fillers are read of which the first is among the leading ones.  They may be
followed by what the second sequel says. -/
def Opens (prog : Script α) (T : SymbolTable) (O S : Sequel) : Prop :=
  ∃ (c : List Filler) (a : α) (U : SymbolTable),
    (∀ after, S.Leads after → O.Leads (c.map Filler.piece ++ after)) ∧
      prog.Reads T (c.map Filler.piece) (· = a) U S.Leads

/-- From the table on, the lexemes are read and fillers behind them. -/
def Completes (prog : Script α) (T : SymbolTable) (p : List Piece) (S : Sequel) (a : α) : Prop :=
  ∃ (c : List Filler) (U : SymbolTable),
    prog.Reads T (p ++ c.map Filler.piece) (· = a) U S.Leads

theorem Opens.completes (h : prog.Opens T O S) : ∃ a, prog.Completes T [] S a := by
  obtain ⟨c, a, U, -, hreads⟩ := h
  exact ⟨a, c, U, hreads⟩

/-- What the script leaves behind lexemes that it has read. -/
theorem Steady.leaves (h : prog.Steady place P) (hT : place.Ready T)
    (hreads : prog.Reads T q (· = a) U S.Leads) : T.Frame U ∧ place.Ready U ∧ P a := by
  obtain ⟨_, rfl, htakes⟩ := hreads (.empty T) _ rfl rfl S.leads_first
  have hleaves := h _ _ _ rfl hT htakes
  exact ⟨hleaves.frame, hleaves.ready, hleaves.value⟩

/-- Less may follow. -/
theorem Reads.before {A B : List Piece → Prop} (h : prog.Reads T q P U A)
    (hB : ∀ after, B after → A after) : prog.Reads T q P U B :=
  fun v after hv htable hafter => h v after hv htable (hB after hafter)

/-- A script that has been completed is followed by one that is opened. -/
theorem Completes.bind {B : Sequel} (h : prog.Completes T p S a) (hsteady : prog.Steady place P)
    (hT : place.Ready T) (hsub : N.fillers ⊆ S.fillers)
    (hnext : ∀ U, T.Frame U → place.Ready U → P a → (next a).Opens U N B) :
    ∃ b, (prog >>= next).Completes T p B b := by
  obtain ⟨c, U, hreads⟩ := h
  obtain ⟨hframe, hU, ha⟩ := hsteady.leaves hT hreads
  obtain ⟨c', b, V, hleads, hreads'⟩ := hnext U hframe hU ha
  have hall : (prog >>= next).Reads T ((p ++ c.map Filler.piece) ++ c'.map Filler.piece) (· = b) V
      B.Leads :=
    hreads.bind (fun _ h => h ▸ hreads') fun after hafter => (hleads after hafter).mono hsub
  rw [List.append_assoc, ← List.map_append] at hall
  exact ⟨b, c ++ c', V, hall⟩

theorem Completes.map {f : α → β} (h : prog.Completes T p S a) :
    (prog >>= fun a => pure (f a)).Completes T p S (f a) := by
  obtain ⟨c, U, hreads⟩ := h
  exact ⟨c, U, hreads.map fun _ h => h ▸ rfl⟩

theorem Completes.rule {f : Nonterminal} {result : f.Result}
    (h : (Grammar.script f).Completes T p S result) : (Script.rule f).Completes T p S result := by
  obtain ⟨c, U, hreads⟩ := h
  exact ⟨c, U, hreads.rule⟩

theorem Opens.bind {B : Sequel} (h : prog.Opens T O S) (hsteady : prog.Steady place P)
    (hT : place.Ready T) (hsub : N.fillers ⊆ S.fillers)
    (hnext : ∀ a U, T.Frame U → place.Ready U → P a → (next a).Opens U N B) :
    (prog >>= next).Opens T O B := by
  obtain ⟨c, a, U, hfirst, hreads⟩ := h
  obtain ⟨hframe, hU, ha⟩ := hsteady.leaves hT hreads
  obtain ⟨c', b, V, hleads, hreads'⟩ := hnext a U hframe hU ha
  have hall : (prog >>= next).Reads T (c.map Filler.piece ++ c'.map Filler.piece) (· = b) V
      B.Leads :=
    hreads.bind (fun _ h => h ▸ hreads') fun after hafter => (hleads after hafter).mono hsub
  rw [← List.map_append] at hall
  refine ⟨c ++ c', b, V, fun after hafter => ?_, hall⟩
  rw [List.map_append, List.append_assoc]
  exact hfirst _ ((hleads after hafter).mono hsub)

namespace Opens

theorem pure : (Pure.pure a : Script α).Opens T S S :=
  ⟨[], a, T, fun _ => id, .pure rfl⟩

theorem map {f : α → β} (h : prog.Opens T O S) :
    (prog >>= fun a => Pure.pure (f a)).Opens T O S := by
  obtain ⟨c, a, U, hleads, hreads⟩ := h
  exact ⟨c, f a, U, hleads, hreads.map fun _ h => h ▸ rfl⟩

theorem rule {f : Nonterminal} (h : (Grammar.script f).Opens T O S) :
    (Script.rule f).Opens T O S := by
  obtain ⟨c, a, U, hleads, hreads⟩ := h
  exact ⟨c, a, U, hleads, hreads.rule⟩

theorem declare {name : String} {meaning : Meaning} : (Script.declare name meaning).Opens T S S :=
  ⟨[], (), T.declare name meaning, fun _ => id,
    fun _ _ _ htable _ => ⟨(), rfl, htable ▸ Takes.declare⟩⟩

theorem expect {kind : TokenKind} (filler : Filler) (hT : T.KeywordFree)
    (hkind : ∀ found ∈ filler.kinds, found = kind) :
    (Script.expect kind).Opens T (.only filler) S := by
  refine ⟨[filler], ⟨T.classify filler.lexeme, .start none⟩, T, ?_, ?_⟩
  · exact fun after _ => Sequel.leads_cons after List.mem_cons_self
  · rintro v after hv rfl -
    exact ⟨_, rfl, Takes.expect hv (hkind _ (filler.classify_mem_kinds hT))⟩

end Opens

/-- Nothing is taken because of what leads. -/
theorem reads_look {next : Token → Script α} (hT : T.KeywordFree)
    (hnext : ∀ kind ∈ S.kinds, ∀ position, next ⟨kind, position⟩ = pure a) :
    (peek >>= next).Reads T [] (· = a) T S.Leads := by
  rintro v after hv rfl hafter
  obtain ⟨first, others, rfl, hfirst⟩ := hafter.faces hT
  refine ⟨a, rfl, Takes.peek.bind ?_⟩
  have hdone := hnext _ hfirst first.position
  rw [show next (v.next first) = pure a from hdone]
  exact Takes.pure

theorem Opens.look {next : Token → Script α} (hT : T.KeywordFree)
    (hnext : ∀ kind ∈ S.kinds, ∀ position, next ⟨kind, position⟩ = Pure.pure a) :
    (peek >>= next).Opens T S S :=
  ⟨[], a, T, fun _ => id, reads_look hT hnext⟩

/-- The script goes on as if nothing had been looked for, since nothing that leads is of the kind. -/
theorem Opens.accept_not {kind : TokenKind} {next : Bool → Script β}
    (h : (next false).Opens T O S) (hT : T.KeywordFree) (hkind : kind ∉ O.kinds) :
    (accept kind >>= next).Opens T O S := by
  obtain ⟨c, b, U, hleads, hreads⟩ := h
  have hnot : (accept kind).Reads T [] (· = false) T O.Leads :=
    Reads.accept_not.before fun after hafter => (hafter.faces hT).mono
      fun found hfound heq => hkind (heq ▸ hfound)
  exact ⟨c, b, U, hleads, hnot.look (fun a ha => ha ▸ hreads) hleads⟩

theorem Opens.nextIs_not {kind : TokenKind} {next : Bool → Script β}
    (h : (next false).Opens T O S) (hT : T.KeywordFree) (hkind : kind ∉ O.kinds) :
    (nextIs kind >>= next).Opens T O S := by
  obtain ⟨c, b, U, hleads, hreads⟩ := h
  have hnot : (nextIs kind).Reads T [] (· = false) T O.Leads :=
    Reads.nextIs_not.before fun after hafter => (hafter.faces hT).mono
      fun found hfound heq => hkind (heq ▸ hfound)
  exact ⟨c, b, U, hleads, hnot.look (fun a ha => ha ▸ hreads) hleads⟩

/-- The filler is what is looked for. -/
theorem Opens.accept {kind : TokenKind} {next : Bool → Script β} (filler : Filler)
    (h : (next true).Opens T N S) (hT : T.KeywordFree)
    (hkind : ∀ found ∈ filler.kinds, found = kind) :
    (Script.accept kind >>= next).Opens T (.only filler) S := by
  obtain ⟨c, b, U, -, hreads⟩ := h
  have hfirst : T.classify filler.piece.lexeme = kind := hkind _ (filler.classify_mem_kinds hT)
  exact ⟨filler :: c, b, U, fun after _ => Sequel.leads_cons after List.mem_cons_self,
    (Reads.accept hfirst).cons fun a ha => ha ▸ hreads⟩

/-! ## Scripts that starve -/

variable {depth : Nat} {fault : ParseError}

/-- If the lexemes alone starve the script, they can be completed, or the script is barred. -/
def Resumes (depth : Nat) (fault : ParseError) (prog : Script α) (T : SymbolTable) (p : List Piece)
    (S : Sequel) : Prop :=
  prog.Starves (Parser.StarvesAt depth) (.alone T p fault) →
    (∃ a, prog.Completes T p S a) ∨ prog.Barred (.alone T p fault)

/-- A script that goes on, on fillers alone or behind lexemes on which it starves. -/
structure Continues (depth : Nat) (fault : ParseError) (prog : Script α) (T : SymbolTable)
    (O S : Sequel) : Prop where
  opens : prog.Opens T O S
  resumes : ∀ p, prog.Resumes depth fault T p S

/-- What the script has read is nothing but the lexemes taken off. -/
theorem Takes.alone {v : View} (htakes : prog.Takes (.alone T p fault) a v) (htaken : v.taken = none) :
    v = .alone v.table v.ahead fault := by
  have hending := htakes.ending_eq
  obtain ⟨ahead, ending, table, taken⟩ := v
  cases htaken
  cases hending
  rfl

/-- What has been taken off the lexemes alone is taken whatever comes behind them. -/
theorem Takes.behind {U : SymbolTable} {p' : List Piece}
    (h : prog.Takes (.alone T p fault) a (.alone U p' fault)) {v : View} (hv : v.taken = none)
    (htable : v.table = T) (after : List Piece) :
    prog.Takes (v.facing (p ++ after)) a ((v.under U).facing (p' ++ after)) := by
  have hall := h.extend rfl after v.ending
  have hbefore : (View.alone T p fault).extend after v.ending = v.facing (p ++ after) := by
    simp [View.alone, View.extend, View.facing, hv, htable]
  have hbehind : (View.alone U p' fault).extend after v.ending =
      (v.under U).facing (p' ++ after) := by
    simp [View.alone, View.extend, View.facing, View.under, hv]
  rwa [hbefore, hbehind] at hall

/-- What has been taken off the lexemes stands in front of those that are completed. -/
theorem Completes.past {U : SymbolTable} {p' : List Piece} {next : α → Script β}
    (h : (next a).Completes U p' S b)
    (htakes : prog.Takes (.alone T p fault) a (.alone U p' fault)) :
    (prog >>= next).Completes T p S b := by
  obtain ⟨c, V, hreads⟩ := h
  refine ⟨c, V, fun v after hv htable hafter => ?_⟩
  obtain ⟨_, rfl, hnext⟩ := hreads (v.under U) after hv rfl hafter
  rw [List.append_assoc] at hnext ⊢
  exact ⟨_, rfl, (htakes.behind hv htable _).bind hnext⟩

namespace Resumes

/-- The first script has taken its lexemes, and the rest resumes on the others. -/
theorem past {U : SymbolTable} {p' : List Piece}
    (htakes : prog.Takes (.alone T p fault) a (.alone U p' fault))
    (h : (next a).Resumes depth fault U p' S) : (prog >>= next).Resumes depth fault T p S := by
  intro hstarves
  rcases h (hstarves.past htakes) with ⟨b, hcompletes⟩ | hbarred
  · exact Or.inl ⟨b, hcompletes.past htakes⟩
  · exact Or.inr (hbarred.rest htakes)

/-- The first script resumes and the rest opens, or the first has taken its lexemes and the rest
resumes. -/
theorem bind {B : Sequel} (h : prog.Resumes depth fault T p S) (hsteady : prog.Steady place P)
    (hT : place.Ready T) (hsub : N.fillers ⊆ S.fillers)
    (hnext : ∀ a U, T.Frame U → place.Ready U → P a → (next a).Continues depth fault U N B) :
    (prog >>= next).Resumes depth fault T p B := by
  intro hstarves
  rcases hstarves.bind with hfirst | ⟨a, w, htakes, hlater⟩
  · rcases h hfirst with ⟨a, hcompletes⟩ | hbarred
    · exact Or.inl (hcompletes.bind hsteady hT hsub fun U hframe hU ha =>
        (hnext a U hframe hU ha).opens)
    · exact Or.inr hbarred.front
  · have hleaves := hsteady _ a w rfl hT htakes
    have halone := htakes.alone hleaves.taken
    rw [halone] at htakes
    exact past htakes ((hnext a _ hleaves.frame hleaves.ready hleaves.value).resumes _) hstarves

theorem map {f : α → β} (h : prog.Resumes depth fault T p S) :
    (prog >>= fun a => Pure.pure (f a)).Resumes depth fault T p S := by
  intro hstarves
  rcases hstarves.bind with hfirst | ⟨_, _, -, hdone⟩
  · exact (h hfirst).imp (fun ⟨_, hcompletes⟩ => ⟨_, hcompletes.map⟩) Barred.front
  · exact hdone.elim

/-- Where the script has nothing to read yet, it opens. -/
theorem of_opens (h : prog.Opens T O S) : prog.Resumes depth fault T [] S :=
  fun _ => Or.inl h.completes

/-- A lexeme has come alone, and what is done with it depends on the one behind it.  It is completed
as for the other script, if what leads that one decides for it. -/
theorem of_opens_behind {other : Script α} {piece : Piece} (h : other.Opens T O S)
    (hT : T.KeywordFree)
    (hdecides : ∀ (v : View) first others a w, v.taken = none → v.table = T →
      v.kind first ∈ O.kinds → other.Takes (v.facing (first :: others)) a w →
      prog.Takes (v.facing (piece :: first :: others)) a w) :
    prog.Resumes depth fault T [piece] S := by
  intro _
  obtain ⟨c, a, U, hleads, hreads⟩ := h
  refine Or.inl ⟨a, c, U, ?_⟩
  rintro v after hv rfl hafter
  obtain ⟨_, rfl, htakes⟩ := hreads v after hv rfl hafter
  obtain ⟨first, others, hpieces, hfirst⟩ := (hleads after hafter).faces hT
  rw [List.singleton_append, List.cons_append, hpieces]
  rw [hpieces] at htakes
  exact ⟨_, rfl, hdecides v first others _ _ hv rfl hfirst htakes⟩

/-- A token that has been looked at. -/
theorem peek {piece : Piece} {next : Token → Script β}
    (h : (next ⟨T.classify piece.lexeme, piece.position⟩).Resumes depth fault T (piece :: p) S) :
    (Script.peek >>= next).Resumes depth fault T (piece :: p) S :=
  past (Takes.peek (v := .alone T [] fault)) h

/-- A token that is taken. -/
theorem advance {piece : Piece} {next : Token → Script β}
    (h : (next ⟨T.classify piece.lexeme, piece.position⟩).Resumes depth fault T p S) :
    (Script.advance >>= next).Resumes depth fault T (piece :: p) S :=
  past (Takes.advance (v := .alone T [] fault) rfl) h

theorem refuse {token : Token} {grammatical : GrammarFault} :
    (Script.refuse token grammatical : Script α).Resumes depth fault T p S :=
  fun hstarves => hstarves.elim

theorem fail {e : ParseError} : (Script.fail e : Script α).Resumes depth fault T p S :=
  fun hstarves => hstarves.elim

theorem contradictAt {token : Token} {internal : InternalFault} :
    (Script.contradictAt token internal : Script α).Resumes depth fault T p S :=
  fail

theorem pure : (Pure.pure a : Script α).Resumes depth fault T p S :=
  fun hstarves => hstarves.elim

end Resumes

/-- A script that takes no lexeme and looks at none. -/
theorem Continues.step {next : α → Script β}
    (htakes : ∀ v, v.table = T → prog.Takes v a (v.under U))
    (h : (next a).Continues depth fault U O S) : (prog >>= next).Continues depth fault T O S := by
  obtain ⟨c, b, V, hleads, hreads⟩ := h.opens
  have hsilent : prog.Reads T [] (· = a) U fun _ => True :=
    fun v after _ htable _ => ⟨a, rfl, htakes _ htable⟩
  exact { opens := ⟨c, b, V, hleads, hsilent.step fun _ ha => ha ▸ hreads⟩
          resumes := fun p => .past (htakes (.alone T p fault) rfl) (h.resumes p) }

/-! ## Viable scripts -/

/-- At every table of the place the script goes on, and it leaves a table of the place. -/
structure Viable (depth : Nat) (fault : ParseError) (place : Place) (prog : Script α) (O S : Sequel)
    (P : α → Prop) : Prop where
  steady : prog.Steady place P
  continues : ∀ T, place.Ready T → prog.Continues depth fault T O S

namespace Viable

variable {B : Sequel}

theorem opens (h : prog.Viable depth fault place O S P) (hT : place.Ready T) : prog.Opens T O S :=
  (h.continues T hT).opens

theorem resumes (h : prog.Viable depth fault place O S P) (hT : place.Ready T) (p : List Piece) :
    prog.Resumes depth fault T p S :=
  (h.continues T hT).resumes p

theorem bind (h : prog.Viable depth fault place O S P) (hsub : N.fillers ⊆ S.fillers)
    (hnext : ∀ a, P a → (next a).Viable depth fault place N B Q) :
    (prog >>= next).Viable depth fault place O B Q where
  steady := h.steady.bind fun a ha => (hnext a ha).steady
  continues T hT :=
    { opens := (h.continues T hT).opens.bind h.steady hT hsub fun a U _ hU ha =>
        ((hnext a ha).continues U hU).opens
      resumes := fun p => ((h.continues T hT).resumes p).bind h.steady hT hsub fun a U _ hU ha =>
        (hnext a ha).continues U hU }

/-- As `bind`, where what may follow is what leads the rest. -/
theorem andThen (h : prog.Viable depth fault place O S P)
    (hnext : ∀ a, P a → (next a).Viable depth fault place S B Q) :
    (prog >>= next).Viable depth fault place O B Q :=
  h.bind (List.Subset.refl _) hnext

theorem pure (ha : P a) : (Pure.pure a : Script α).Viable depth fault place S S P where
  steady := .pure ha
  continues _ _ :=
    { opens := .pure
      resumes := fun _ => .pure }

theorem done : (Pure.pure a : Script α).Viable depth fault place S S fun _ => True :=
  pure trivial

theorem map {f : α → β} (h : prog.Viable depth fault place O S P) :
    (prog >>= fun a => Pure.pure (f a)).Viable depth fault place O S fun _ => True :=
  h.andThen fun _ _ => done

/-- A longer list of what leads, and a shorter one of what follows. -/
theorem mono {O' S' : Sequel} {P' : α → Prop} (h : prog.Viable depth fault place O S P)
    (hO : O.fillers ⊆ O'.fillers) (hS : S'.fillers ⊆ S.fillers) (hP : ∀ a, P a → P' a) :
    prog.Viable depth fault place O' S' P' where
  steady := h.steady.weaken hP
  continues T hT := by
    obtain ⟨c, a, U, hleads, hreads⟩ := h.opens hT
    refine { opens := ⟨c, a, U, fun after hafter => (hleads after (hafter.mono hS)).mono hO, ?_⟩
             resumes := fun p hstarves => ?_ }
    · exact hreads.before fun after hafter => hafter.mono hS
    · refine (h.resumes hT p hstarves).imp_left ?_
      rintro ⟨a, c, U, hreads⟩
      exact ⟨a, c, U, hreads.before fun after hafter => hafter.mono hS⟩

theorem weaken {P' : α → Prop} (h : prog.Viable depth fault place O S P) (hP : ∀ a, P a → P' a) :
    prog.Viable depth fault place O S P' :=
  h.mono (List.Subset.refl _) (List.Subset.refl _) hP

theorem narrow {P' : α → Prop} (h : prog.Viable depth fault place O S P)
    (hsteady : prog.Steady place P') : prog.Viable depth fault place O S P' :=
  { h with steady := hsteady }

/-! ### Looks at the next token -/

/-- A script that begins with a look at the next token resumes as it goes on from that token. -/
theorem peek {next : Token → Script β} (hsteady : (Script.peek >>= next).Steady place Q)
    (hopens : ∀ T, place.Ready T → (Script.peek >>= next).Opens T O B)
    (hnext : ∀ T piece p, place.Ready T →
      (next ⟨T.classify piece.lexeme, piece.position⟩).Resumes depth fault T (piece :: p) B) :
    (Script.peek >>= next).Viable depth fault place O B Q where
  steady := hsteady
  continues T hT :=
    { opens := hopens T hT
      resumes := fun p => by
        cases p with
        | nil => exact .of_opens (hopens T hT)
        | cons piece p => exact .peek (hnext T piece p hT) }

/-- The position is that of a filler, since something may follow that does not lead. -/
theorem here {next : Position → Script β} (last : Filler)
    (h : ∀ position, (next position).Viable depth fault place O B Q) (hlast : last ∈ B.fillers)
    (hapart : ∀ filler ∈ O.fillers, last.lexeme ≠ filler.lexeme) :
    (Script.here >>= next).Viable depth fault place O B Q := by
  refine peek (Steady.of_orderly Orderly.here Restores.here.keeps |>.bind fun position _ =>
    (h position).steady) (fun T hT => ?_) fun T piece p hT => (h piece.position).resumes hT _
  obtain ⟨c, b, U, hleads, hreads⟩ := (h (.start none)).opens hT
  refine ⟨c, b, U, hleads, ?_⟩
  cases c with
  | nil =>
      obtain ⟨filler, hmem, piece, others, hpieces, hlexeme⟩ :=
        hleads [last.piece] ⟨last, hlast, _, _, rfl, rfl⟩
      obtain ⟨rfl, -⟩ := List.cons.inj hpieces
      exact absurd hlexeme (hapart filler hmem)
  | cons filler c => exact Reads.peek hreads

/-- A token is taken and the rest goes on. -/
theorem behind {piece : Piece} {next : Token → Script β} (hT : place.Ready T)
    (h : (next ⟨T.classify piece.lexeme, piece.position⟩).Viable depth fault place O B Q) :
    (Script.advance >>= next).Resumes depth fault T (piece :: p) B :=
  .advance (h.resumes hT p)

/-- Either way the script goes on, where a token has come. -/
theorem looks {kind : TokenKind} {next : Bool → Script β}
    (hopens : ∀ T, place.Ready T → (Script.nextIs kind >>= next).Opens T O B)
    (hsteady : ∀ found, (next found).Steady place Q)
    (hresumes : ∀ found T piece p, place.Ready T →
      (next found).Resumes depth fault T (piece :: p) B) :
    (Script.nextIs kind >>= next).Viable depth fault place O B Q := by
  have hsame : Script.nextIs kind >>= next =
      Script.peek >>= fun token => next (decide (token.kind = kind)) := rfl
  rw [hsame] at hopens ⊢
  exact peek (Steady.peek.bind fun token _ => hsteady _) hopens fun T piece p hT =>
    hresumes _ T piece p hT

theorem nextIs {kind : TokenKind} {next : Bool → Script β} {M : Sequel}
    (hopens : ∀ T, place.Ready T → (Script.nextIs kind >>= next).Opens T O B)
    (hyes : (next true).Viable depth fault place N B Q)
    (hno : (next false).Viable depth fault place M B Q) :
    (Script.nextIs kind >>= next).Viable depth fault place O B Q :=
  looks hopens (Bool.rec hno.steady hyes.steady)
    (Bool.rec (fun _ _ _ hT => hno.resumes hT _) fun _ _ _ hT => hyes.resumes hT _)

/-- Either way the script goes on, where a token has come. -/
theorem accepts {kind : TokenKind} {next : Bool → Script β}
    (hopens : ∀ T, place.Ready T → (Script.accept kind >>= next).Opens T O B)
    (hsteady : ∀ found, (next found).Steady place Q)
    (hyes : ∀ T p, place.Ready T → (next true).Resumes depth fault T p B)
    (hno : ∀ T piece p, place.Ready T → (next false).Resumes depth fault T (piece :: p) B) :
    (Script.accept kind >>= next).Viable depth fault place O B Q where
  steady := (Steady.of_orderly (Orderly.accept kind) (Restores.accept kind).keeps).bind
    fun found _ => hsteady found
  continues T hT := by
    refine { opens := hopens T hT, resumes := fun p => ?_ }
    cases p with
    | nil => exact .of_opens (hopens T hT)
    | cons piece p =>
        by_cases hfound : T.classify piece.lexeme = kind
        · exact .past (Takes.accept (v := .alone T [] fault) rfl hfound) (hyes T p hT)
        · exact .past (Takes.accept_not (v := .alone T [] fault) hfound) (hno T piece p hT)

/-- A token of the kind is taken, or the rest goes on without it.  Nothing that leads the rest is of
the kind. -/
theorem accept {kind : TokenKind} {next : Bool → Script β}
    (hyes : (next true).Viable depth fault place N B Q)
    (hno : (next false).Viable depth fault place O B Q)
    (hkind : kind ∉ O.kinds) :
    (Script.accept kind >>= next).Viable depth fault place O B Q := by
  refine accepts (fun T hT => (hno.opens hT).accept_not hT.keywordFree hkind) ?_
    (fun T p hT => hyes.resumes hT p) fun T piece p hT => hno.resumes hT (piece :: p)
  exact Bool.rec hno.steady hyes.steady

/-- Where no token has come yet, the filler is what is looked for. -/
theorem acceptFirst {kind : TokenKind} {next : Bool → Script β} (filler : Filler)
    (hyes : (next true).Viable depth fault place N B Q) (hsteady : (next false).Steady place Q)
    (hno : ∀ T piece p, place.Ready T → (next false).Resumes depth fault T (piece :: p) B)
    (hkind : ∀ found ∈ filler.kinds, found = kind) :
    (Script.accept kind >>= next).Viable depth fault place (.only filler) B Q := by
  refine accepts (fun T hT => (hyes.opens hT).accept filler hT.keywordFree hkind) ?_
    (fun T p hT => hyes.resumes hT p) hno
  exact Bool.rec hsteady hyes.steady

/-- As `acceptFirst`, where the rest goes on without the token. -/
theorem acceptOr {kind : TokenKind} {next : Bool → Script β} (filler : Filler)
    (hyes : (next true).Viable depth fault place N B Q)
    (hno : (next false).Viable depth fault place O B Q)
    (hkind : ∀ found ∈ filler.kinds, found = kind) :
    (Script.accept kind >>= next).Viable depth fault place (.only filler) B Q :=
  acceptFirst filler hyes hno.steady (fun _ piece p hT => hno.resumes hT (piece :: p)) hkind

/-! ### Tokens that have to come -/

theorem expect {kind : TokenKind} (filler : Filler) (hkind : ∀ found ∈ filler.kinds, found = kind) :
    (Script.expect kind).Viable depth fault place (.only filler) S fun _ => True := by
  refine peek (.of_orderly (Orderly.expect kind) (Restores.expect kind).keeps)
    (fun T hT => .expect filler hT.keywordFree hkind) ?_
  intro T piece p hT
  dsimp only
  split
  · exact fun hstarves => hstarves.elim
  · exact .refuse

/-- As `expect`, where other kinds of token would have done as well. -/
theorem expectOneOf {kind : TokenKind} {kinds : List TokenKind} (filler : Filler)
    (hkind : ∀ found ∈ filler.kinds, found = kind) (ha : P a) :
    (Script.peek >>= fun token => if token.kind = kind then Script.advance >>= fun _ => Pure.pure a
      else Script.refuse token (.expectedOneOf kinds token.kind)).Viable depth fault place
        (.only filler) S P := by
  refine peek ?_ ?_ ?_
  · refine Steady.peek.bind fun token _ => ?_
    split
    · exact Steady.advance.bind fun _ _ => .pure ha
    · exact .refuse
  · intro T hT
    refine ⟨[filler], a, T, fun after _ => Sequel.leads_cons after List.mem_cons_self, ?_⟩
    have hfirst : T.classify filler.piece.lexeme = kind :=
      hkind _ (filler.classify_mem_kinds hT.keywordFree)
    refine Reads.peek ?_
    simp only [hfirst, if_true]
    exact Reads.cons Reads.advance fun _ _ => .pure rfl
  · intro T piece p hT
    dsimp only
    split
    · exact .advance .pure
    · exact .refuse

theorem expectWord : Script.expectWord.Viable depth fault place (.only .name) S Unreserved := by
  have hopens : ∀ T, place.Ready T → Script.expectWord.Opens T (.only .name) S := by
    intro T hT
    refine ⟨[.name], "x", T, fun after _ => Sequel.leads_cons after List.mem_cons_self, ?_⟩
    rintro v after hv rfl -
    exact ⟨_, rfl, Takes.expectWord hv (Filler.classify_name v.table)⟩
  refine { steady := ?_, continues := fun T hT => { opens := hopens T hT, resumes := fun p => ?_ } }
  · exact .of_orderly Orderly.expectWord Restores.expectWord.keeps
  · cases p with
    | nil => exact .of_opens (hopens T hT)
    | cons piece p =>
        refine .advance ?_
        split
        · exact .pure
        · exact .pure
        · exact .refuse

theorem acceptWord : Script.acceptWord.Viable depth fault place (.only .name) S fun _ => True := by
  have htaken : (Script.expectWord >>= fun name => Pure.pure (some name)).Viable depth fault place
      (.only .name) S fun _ => True :=
    expectWord.andThen fun _ _ => pure trivial
  refine peek (.of_orderly Orderly.acceptWord Restores.acceptWord.keeps) ?_ ?_
  · intro T hT
    refine ⟨[.name], some "x", T, fun after _ => Sequel.leads_cons after List.mem_cons_self, ?_⟩
    rintro v after hv rfl -
    exact ⟨_, rfl, Takes.acceptWord hv (Filler.classify_name v.table)⟩
  · intro T piece p hT
    dsimp only
    split
    · exact htaken.resumes hT (piece :: p)
    · exact htaken.resumes hT (piece :: p)
    · exact .pure

/-! ### Rules, scopes and declarations -/

theorem rule {f : Nonterminal} (hplace : ∀ T, place.Holds T → f.place.Holds T)
    (hopens : ∀ T, f.place.Ready T → (Grammar.script f).Opens T O S)
    (hresumes : ∀ T p, f.place.Ready T → Parser.StarvesAt depth f (.alone T p fault) →
      (∃ a, (Grammar.script f).Completes T p S a) ∨ (Grammar.script f).Barred (.alone T p fault)) :
    (Script.rule f).Viable depth fault place O S fun result => AllUnreserved (f.words result) where
  steady := .rule hplace
  continues T hT := by
    have hready : f.place.Ready T := { keywordFree := hT.keywordFree, holds := hplace T hT.holds }
    refine { opens := (hopens T hready).rule, resumes := fun p hstarves => ?_ }
    rcases hresumes T p hready (starves_rule.1 hstarves) with ⟨a, hcompletes⟩ | hbarred
    · exact Or.inl ⟨a, hcompletes.rule⟩
    · exact Or.inr hbarred.rule

theorem declare {name : String} (hname : Unreserved name) (meaning : Meaning) :
    (Script.declare name meaning).Viable depth fault .block S S fun _ => True where
  steady := .of_orderly (Orderly.declare hname meaning) (Keeps.declare name meaning)
  continues _ _ :=
    { opens := .declare
      resumes := fun _ hstarves => hstarves.elim }

theorem declareEnumerator {name : String} (hname : Unreserved name) :
    (Script.declareEnumerator name).Viable depth fault place S S fun _ => True where
  steady := .of_orderly (Orderly.declareEnumerator hname) (Keeps.declareEnumerator name)
  continues T _ :=
    { opens := ⟨[], (), T.declareEnumerator name, fun _ => id,
        fun _ _ _ htable _ => ⟨(), rfl, htable ▸ Takes.request rfl Takes.pure⟩⟩
      resumes := fun _ hstarves => hstarves.elim }

/-- A scope that is opened and closed again. -/
theorem within {kind : ScopeKind} {inner : Place} {body : Script α} {exit : α → Position}
    {next : α → Script β} (hbody : body.Viable depth fault inner O S P)
    (hinner : ∀ T, place.Holds T → inner.Holds (T.enter kind)) (hsub : N.fillers ⊆ S.fillers)
    (hnext : ∀ a, P a → (next a).Viable depth fault place N B Q) :
    (Script.enter kind >>= fun _ => body >>= fun a => Script.leave (exit a) >>= fun _ =>
      next a).Viable depth fault place O B Q := by
  have hready : ∀ T, place.Ready T → inner.Ready (T.enter kind) := fun T hT =>
    { keywordFree := hT.keywordFree.enter kind, holds := hinner T hT.holds }
  -- Whatever is declared inside, the scope can be left, and the one outside is what it was.
  have hleave : ∀ T U, place.Ready T → (T.enter kind).Frame U → U.KeywordFree →
      ∃ W, U.leave? = some W ∧ T.Frame W ∧ place.Ready W := by
    intro T U hT hframe hU
    obtain ⟨W, hW, houter⟩ := hframe.exists_leave
    exact ⟨W, hW, houter, { keywordFree := hU.leave hW, holds := hT.holds.frame houter }⟩
  refine { steady := ?_, continues := fun T hT => ?_ }
  · intro v b w hv hT htakes
    obtain ⟨_, u, henter, htakes⟩ := htakes.exists_bind
    obtain ⟨rfl, rfl⟩ := Takes.enter.unique henter
    obtain ⟨a, u, hbodyTakes, htakes⟩ := htakes.exists_bind
    have hinside := hbody.steady { v with table := v.table.enter kind } a u hv (hready _ hT)
      hbodyTakes
    obtain ⟨W, hW, houter, hWready⟩ :=
      hleave _ _ hT hinside.frame hinside.ready.keywordFree
    obtain ⟨_, x, hexit, htakes⟩ := htakes.exists_bind
    obtain ⟨rfl, rfl⟩ := (Takes.leave hW).unique hexit
    have houtside := (hnext a hinside.value).steady { u with table := W } b w hinside.taken hWready
      htakes
    exact { houtside with frame := houter.trans houtside.frame }
  · have hexit : ∀ a U, (T.enter kind).Frame U → inner.Ready U → P a →
        (Script.leave (exit a) >>= fun _ => next a).Continues depth fault U N B := by
      intro a U hframe hU ha
      obtain ⟨W, hW, -, hWready⟩ := hleave T U hT hframe hU.keywordFree
      refine .step (a := ()) (fun v htable => ?_) ((hnext a ha).continues W hWready)
      subst htable
      exact Takes.leave hW
    have hopened := hbody.continues _ (hready T hT)
    have hinside : (body >>= fun a => Script.leave (exit a) >>= fun _ => next a).Continues depth
        fault (T.enter kind) O B :=
      { opens := hopened.opens.bind hbody.steady (hready T hT) hsub fun a U hframe hU ha =>
          (hexit a U hframe hU ha).opens
        resumes := fun p => (hopened.resumes p).bind hbody.steady (hready T hT) hsub hexit }
    exact .step (a := ()) (fun v htable => htable ▸ Takes.enter) hinside

/-- A scope that is closed with a mark. -/
theorem enclosed {kind : ScopeKind} {inner : Place} {body : Script α} {close : TokenKind}
    {next : α → Script β} (filler : Filler) (hbody : body.Viable depth fault inner O S P)
    (hinner : ∀ T, place.Holds T → inner.Holds (T.enter kind))
    (hsub : (Sequel.only filler).fillers ⊆ S.fillers)
    (hclose : ∀ found ∈ filler.kinds, found = close)
    (hnext : ∀ a, P a → (next a).Viable depth fault place N B Q) :
    (Script.enter kind >>= fun _ => body >>= fun a => Script.expect close >>= fun token =>
      Script.leave token.position >>= fun _ => next a).Viable depth fault place O B Q := by
  have hsame : (Script.enter kind >>= fun _ => body >>= fun a => Script.expect close >>= fun token =>
      Script.leave token.position >>= fun _ => next a) =
      Script.enter kind >>= fun _ =>
        (body >>= fun a => Script.expect close >>= fun token => Pure.pure (a, token)) >>= fun x =>
          Script.leave x.2.position >>= fun _ => next x.1 := by
    simp only [bind_assoc, pure_bind]
  rw [hsame]
  refine within (S := N) (P := fun x => P x.1) ?_ hinner (List.Subset.refl _) fun x hx => hnext x.1 hx
  exact hbody.bind hsub fun a ha => (expect filler hclose).andThen fun _ _ => pure ha

end Viable

end Script

/-! ## Rules of the grammar -/

namespace Nonterminal

/-- The fillers that a rule is read off. -/
def lead : Nonterminal → Sequel
  | .expression _ | .arguments => .only .zero
  | .infixTail _ _ | .postfixTail _ | .adjacentStrings | .suffixes => .closer
  | .typeName | .externalDeclarations => .only .int
  | .specifierTail tally => if tally.hasType then .word else .only .int
  | .members | .enumerators | .initializerItems | .blockItems => .brace
  | .memberDeclarators _ | .initDeclarators _ | .declarator .named => .only .name
  | .pointerTail => .word
  | .declarator _ => .closer
  | .parameters => .only (.punctuator .ellipsis)
  | .statement => .only (.punctuator .semicolon)

/-- What may follow a rule that has been completed. -/
def stop : Nonterminal → Sequel
  | .specifierTail _ | .pointerTail => .word
  | .members | .enumerators | .initializerItems | .blockItems => .brace
  | _ => .closer

/-- Whether the rule is spoken of along with the others.  Specifiers do not all have a type yet, and
the declarations of a text go on to its end. -/
def isPart : Nonterminal → Bool
  | .specifierTail _ | .externalDeclarations => false
  | _ => true

end Nonterminal

namespace SpecifierTally

/-- If type specifiers have been read, they name a type. -/
def Sane (tally : SpecifierTally) : Prop :=
  tally.hasType = true → tally.type?.isSome = true

end SpecifierTally

namespace Grammar

/-- Specifiers with a type are gathered off the lexemes and fillers.  A storage class among them has
been gathered off the lexemes. -/
def Furnishes (tally : SpecifierTally) (T : SymbolTable) (p : List Piece) (fault : ParseError)
    (result : SpecifierTally) : Prop :=
  result.type?.isSome = true ∧
    (result.hasStorageClass = true →
      ∃ last, Gathers tally (.alone T p fault) last ∧ last.hasStorageClass = true) ∧
    (specifierTail tally).Completes T p .word result

/-- What is known of the rules that are called: they open, and those that starve with calls nested to
the depth can be completed. -/
structure Calls (depth : Nat) (fault : ParseError) : Prop where
  opens : ∀ f T, f.isPart = true → f.place.Ready T → (script f).Opens T f.lead f.stop
  parts : ∀ f T p, f.isPart = true → f.place.Ready T →
    Parser.StarvesAt depth f (.alone T p fault) →
    (∃ a, (script f).Completes T p f.stop a) ∨ (script f).Barred (.alone T p fault)
  tails : ∀ tally T p, tally.Sane → T.KeywordFree →
    Parser.StarvesAt depth (.specifierTail tally) (.alone T p fault) →
    (∃ result, Furnishes tally T p fault result) ∨
      (specifierTail tally).Barred (.alone T p fault)

namespace Calls

variable {depth : Nat} {fault : ParseError} {place : Place}

/-- A rule that is called at its place. -/
theorem rule (calls : Calls depth fault) (f : Nonterminal) (hpart : f.isPart = true)
    (hplace : ∀ T, place.Holds T → f.place.Holds T) :
    (Script.rule f).Viable depth fault place f.lead f.stop
      fun result => AllUnreserved (f.words result) :=
  .rule hplace (fun T hT => calls.opens f T hpart hT) fun T p hT => calls.parts f T p hpart hT

/-- A rule that may be called anywhere. -/
theorem anywhere (calls : Calls depth fault) (f : Nonterminal) (hpart : f.isPart = true)
    (hplace : f.place = .anywhere) :
    (Script.rule f).Viable depth fault place f.lead f.stop
      fun result => AllUnreserved (f.words result) :=
  calls.rule f hpart fun _ _ => hplace ▸ trivial

end Calls

end Grammar
end CSyntax
