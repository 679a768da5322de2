import CSyntax.Proofs.Lockstep.Agreement
import CSyntax.Proofs.Run.Takes
import CSyntax.Proofs.Scope.Mapping
import Mathlib.Data.List.Forall2

/-!
# Views — corresponding views and what requests do to them

The views of two parsers correspond if their lexemes ahead do, one by one, if both end or both have a
fault there, and if their tables bind the same words in the same scopes to the same meanings, up to
positions in the types (`SymbolTable.erase`).

* `Correspondence.Views` — views that correspond, with a lemma for each request;
* `Stand.Fits` — what a stand says of a view, given how many lexemes were ahead at first;
* `Script.Abreast` — scripts carried out side by side on corresponding views, to which agreement of
  scripts comes (`Script.Agree.abreast`).
-/

namespace CSyntax

/-! ## Tables without positions -/

namespace SymbolTable

/-- The table with no positions in the types that names stand for. -/
def erase (T : SymbolTable) : SymbolTable :=
  T.mapTypes CType.erase

variable {T U : SymbolTable}

/-- Tables that are equal up to positions classify every lexeme alike. -/
theorem classify_of_alike (h : Alike erase T U) (w : Lexeme) : U.classify w = T.classify w := by
  have herase : ∀ T : SymbolTable, T.erase.classify w = T.classify w := by
    intro T
    cases w <;> simp [classify, classifyWord, erase, isTypeName_mapTypes]
  rw [← herase U, ← h, herase]

theorem erase_enter (T : SymbolTable) (kind : ScopeKind) :
    (T.enter kind).erase = T.erase.enter kind :=
  mapTypes_enter _ T kind

theorem erase_leave? (T : SymbolTable) : T.leave?.map erase = T.erase.leave? :=
  mapTypes_leave? _ T

theorem erase_declare (T : SymbolTable) (name : String) (meaning : Meaning) :
    (T.declare name meaning).erase = T.erase.declare name meaning.erase :=
  mapTypes_declare _ T name meaning

theorem erase_declareEnumerator (T : SymbolTable) (name : String) :
    (T.declareEnumerator name).erase = T.erase.declareEnumerator name :=
  mapTypes_declareEnumerator _ T name

end SymbolTable

/-! ## Corresponding views -/

namespace Correspondence

variable (K : Correspondence)

/-- Lexemes that answer each other. -/
structure Pieces (piece piece' : Piece) : Prop where
  lexeme : piece'.lexeme = piece.lexeme
  position : K.positions piece.position piece'.position
  readable : piece.lexeme.Readable

/-- Both texts end, or both have a fault. -/
inductive Endings : Except ParseError Position → Except ParseError Position → Prop
  | ok {p p' : Position} : K.positions p p' → Endings (.ok p) (.ok p')
  | error {e e' : ParseError} : K.faults e e' → Endings (.error e) (.error e')

structure Views (v v' : View) : Prop where
  ahead : List.Forall₂ K.Pieces v.ahead v'.ahead
  ending : K.Endings v.ending v'.ending
  table : Alike SymbolTable.erase v.table v'.table
  taken : Option.Rel (List.Forall₂ K.Pieces) v.taken v'.taken

/-- What a request does to corresponding views: it fails on both, or its answers are related and the
views correspond again. -/
def Responds {α β : Type} (A : α → β → Prop) (x : Option (α × View)) (x' : Option (β × View)) :
    Prop :=
  Option.Rel (fun y y' => A y.1 y'.1 ∧ K.Views y.2 y'.2) x x'

namespace Views

variable {K} {v v' : View}

theorem lexemes_eq (h : K.Views v v') : v'.ahead.map (·.lexeme) = v.ahead.map (·.lexeme) := by
  have hpieces := h.ahead
  generalize v.ahead = ahead, v'.ahead = ahead' at hpieces
  induction hpieces with
  | nil => rfl
  | cons hpiece _ ih => rw [List.map_cons, List.map_cons, ih, hpiece.lexeme]

/-- The tokens at a place answer each other. -/
theorem token? (h : K.Views v v') (n : Nat) : Option.Rel K.Tokens (v.token? n) (v'.token? n) := by
  have hlength := h.ahead.length_eq
  unfold View.token?
  by_cases hn : n < v.ahead.length
  · have hn' : n < v'.ahead.length := hlength ▸ hn
    have hpieces := h.ahead.get hn hn'
    rw [List.getElem?_eq_getElem hn, List.getElem?_eq_getElem hn']
    refine .some ⟨?_, hpieces.position, ?_⟩
    · simp only [View.kind_next, View.kind]
      rw [SymbolTable.classify_of_alike h.table]
      exact congrArg v.table.classify hpieces.lexeme
    · simpa [View.kind] using hpieces.readable
  · rw [List.getElem?_eq_none_iff.2 (by omega), List.getElem?_eq_none_iff.2 (by omega)]
    have hending := h.ending
    generalize v.ending = ending, v'.ending = ending' at hending
    cases hending with
    | ok hp => exact .some ⟨rfl, hp, fun _ hlexeme => by cases hlexeme⟩
    | error _ => exact .none

theorem peek (h : K.Views v v') (n : Nat) :
    K.Responds K.Tokens (v.perform (.peek n)) (v'.perform (.peek n)) := by
  have htokens := h.token? n
  simp only [View.perform]
  generalize v.token? n = token?, v'.token? n = token?' at htokens
  cases htokens with
  | some htoken => exact .some ⟨htoken, h⟩
  | none => exact .none

theorem advance (h : K.Views v v') :
    K.Responds K.Tokens (v.perform .advance) (v'.perform .advance) := by
  have htokens := h.token? 0
  simp only [View.perform]
  generalize v.token? 0 = token?, v'.token? 0 = token?' at htokens
  cases htokens with
  | none => exact .none
  | some htoken =>
      refine .some ⟨htoken, ?_, h.ending, h.table, ?_⟩
      · rw [← List.drop_one, ← List.drop_one]
        exact List.forall₂_drop 1 h.ahead
      · have htaken := h.taken
        dsimp only
        generalize v.taken = taken, v'.taken = taken' at htaken
        cases htaken with
        | none => exact .none
        | some hpieces => exact .some (List.rel_append hpieces (List.forall₂_take 1 h.ahead))

theorem mark (h : K.Views v v') : K.Responds (· = ·) (v.perform .mark) (v'.perform .mark) :=
  .some ⟨rfl, h.ahead, h.ending, h.table, .some .nil⟩

theorem reset (h : K.Views v v') (m m' : Mark) :
    K.Responds (fun _ _ => True) (v.perform (.reset m)) (v'.perform (.reset m')) := by
  refine .some ⟨trivial, ?_, h.ending, h.table, .none⟩
  have htaken := h.taken
  dsimp only
  generalize v.taken = taken, v'.taken = taken' at htaken
  cases htaken with
  | none => exact h.ahead
  | some hpieces => exact List.rel_append hpieces h.ahead

theorem release (h : K.Views v v') (m m' : Mark) :
    K.Responds (fun _ _ => True) (v.perform (.release m)) (v'.perform (.release m')) :=
  .some ⟨trivial, h.ahead, h.ending, h.table, .none⟩

theorem enter (h : K.Views v v') (kind : ScopeKind) :
    K.Responds (fun _ _ => True) (v.perform (.enter kind)) (v'.perform (.enter kind)) := by
  have htable := h.table
  simp only [Alike] at htable
  refine .some ⟨trivial, h.ahead, h.ending, ?_, h.taken⟩
  simp only [Alike, SymbolTable.erase_enter, htable]

theorem leave (h : K.Views v v') (p p' : Position) :
    K.Responds (fun _ _ => True) (v.perform (.leave p)) (v'.perform (.leave p')) := by
  have hleave : v.table.leave?.map SymbolTable.erase = v'.table.leave?.map SymbolTable.erase := by
    rw [SymbolTable.erase_leave?, SymbolTable.erase_leave?]
    exact congrArg SymbolTable.leave? h.table
  simp only [View.perform]
  cases houter : v.table.leave? with
  | none =>
      rw [houter, Option.map_none, eq_comm, Option.map_eq_none_iff] at hleave
      rw [hleave]
      exact .none
  | some outer =>
      rw [houter, Option.map_some, eq_comm, Option.map_eq_some_iff] at hleave
      obtain ⟨outer', houter', hsame⟩ := hleave
      rw [houter']
      exact .some ⟨trivial, h.ahead, h.ending, hsame.symm, h.taken⟩

theorem declare (h : K.Views v v') (name : String) {meaning meaning' : Meaning}
    (hmeaning : Alike Meaning.erase meaning meaning') :
    K.Responds (fun _ _ => True) (v.perform (.declare name meaning))
      (v'.perform (.declare name meaning')) := by
  have htable := h.table
  simp only [Alike] at htable hmeaning
  refine .some ⟨trivial, h.ahead, h.ending, ?_, h.taken⟩
  simp only [Alike, SymbolTable.erase_declare, htable, hmeaning]

theorem declareEnumerator (h : K.Views v v') (name : String) :
    K.Responds (fun _ _ => True) (v.perform (.declareEnumerator name))
      (v'.perform (.declareEnumerator name)) := by
  have htable := h.table
  simp only [Alike] at htable
  refine .some ⟨trivial, h.ahead, h.ending, ?_, h.taken⟩
  simp only [Alike, SymbolTable.erase_declareEnumerator, htable]

end Views

end Correspondence

/-! ## Stands and views -/

/-- Whether a request is about the table alone. -/
def Request.isTabular : Request → Bool
  | .enter _ | .leave _ | .declare _ _ | .declareEnumerator _ => true
  | _ => false

namespace View

variable {v w : View} {token : Token}

theorem token?_of_peek {n : Nat} (h : v.perform (.peek n) = some (token, w)) :
    v.token? n = some token ∧ v = w := by
  obtain ⟨found, hfound, heq⟩ := Option.map_eq_some_iff.1 h
  obtain ⟨rfl, rfl⟩ := Prod.mk.inj heq
  exact ⟨hfound, rfl⟩

theorem token?_of_advance (h : v.perform .advance = some (token, w)) :
    v.token? 0 = some token ∧ { v with
      ahead := v.ahead.tail
      taken := v.taken.map fun pieces => pieces ++ v.ahead.take 1 } = w := by
  obtain ⟨found, hfound, heq⟩ := Option.map_eq_some_iff.1 h
  obtain ⟨rfl, rfl⟩ := Prod.mk.inj heq
  exact ⟨hfound, rfl⟩

theorem perform_of_isTabular {r : Request} {answer : r.Answer} (hr : r.isTabular = true)
    (h : v.perform r = some (answer, w)) : w.ahead = v.ahead ∧ w.taken = v.taken := by
  cases r with
  | leave position =>
      obtain ⟨outer, -, heq⟩ := Option.map_eq_some_iff.1 h
      cases heq
      exact ⟨rfl, rfl⟩
  | enter _ | declare _ _ | declareEnumerator _ =>
      cases h
      exact ⟨rfl, rfl⟩
  | _ => cases hr

end View

namespace Stand

/-- What is known of an outstanding mark: going back to it, no more than `N` lexemes are ahead, and
fewer if a token had been taken before it was set. -/
def Recalls (N : Nat) (v : View) : Option Bool → Prop
  | none => v.taken = none
  | some behind => ∃ pieces, v.taken = some pieces ∧ (pieces ++ v.ahead).length ≤ N ∧
      (behind = true → (pieces ++ v.ahead).length < N)

/-- The view is as the stand says, in a rule that was begun with `N` lexemes ahead. -/
structure Fits (x : Stand) (N : Nat) (v : View) : Prop where
  within : v.ahead.length ≤ N
  behind : x.behind = true → v.ahead.length < N
  facing : ∀ kind ∈ x.facing, ∃ token, v.token? 0 = some token ∧ token.kind = kind
  saved : Recalls N v x.saved

namespace Fits

variable {x : Stand} {N : Nat} {v w : View} {token : Token}

theorem start (htaken : v.taken = none) (hlength : v.ahead.length ≤ N) :
    Stand.start.Fits N v where
  within := hlength
  behind := nofun
  facing := nofun
  saved := htaken

theorem face (h : x.Fits N v) (hperform : v.perform (.peek 0) = some (token, w)) :
    (x.face token.kind).Fits N w := by
  obtain ⟨hfound, rfl⟩ := View.token?_of_peek hperform
  exact { h with facing := fun kind hkind => ⟨token, hfound, by simpa [Stand.face] using hkind⟩ }

theorem peekNth {n : Nat} (h : x.Fits N v) (hperform : v.perform (.peek n) = some (token, w)) :
    x.Fits N w := by
  obtain ⟨-, rfl⟩ := View.token?_of_peek hperform
  exact h

theorem take (h : x.Fits N v) (hperform : v.perform .advance = some (token, w)) :
    (x.take token.kind).Fits N w ∧ ∀ kind ∈ x.facing, token.kind = kind := by
  obtain ⟨hfound, rfl⟩ := View.token?_of_advance hperform
  have hwithin := h.within
  refine ⟨{ within := ?_, behind := ?_, facing := nofun, saved := ?_ }, ?_⟩
  · simpa using Nat.le_trans (Nat.sub_le _ 1) hwithin
  · intro hbehind
    have hcases : x.behind = true ∨ token.kind ≠ .endOfFile := by
      simpa [Stand.take] using hbehind
    rcases hcases with hbefore | hkind
    · simpa using Nat.lt_of_le_of_lt (Nat.sub_le _ 1) (h.behind hbefore)
    · -- The token is no end of the text, so it was cut off the lexemes ahead.
      have hsome : v.ahead ≠ [] := by
        intro hnil
        simp only [View.token?, hnil, List.getElem?_nil, Option.map_eq_some_iff] at hfound
        obtain ⟨position, -, rfl⟩ := hfound
        exact hkind rfl
      have := List.length_pos_iff.2 hsome
      simp only [List.length_tail]
      omega
  · -- The lexeme taken is kept for going back, if there is a mark.
    have hsame : v.ahead.take 1 ++ v.ahead.tail = v.ahead := by
      rw [← List.drop_one, List.take_append_drop]
    have hsaved := h.saved
    change Recalls N _ x.saved
    cases hx : x.saved with
    | none =>
        rw [hx] at hsaved
        have hnone : v.taken = none := hsaved
        simp [Recalls, hnone]
    | some behind =>
        rw [hx] at hsaved
        obtain ⟨pieces, hpieces, hle⟩ := hsaved
        refine ⟨pieces ++ v.ahead.take 1, by simp [hpieces], ?_⟩
        rwa [List.append_assoc, hsame]
  · intro kind hkind
    obtain ⟨token', htoken', rfl⟩ := h.facing kind hkind
    rw [hfound] at htoken'
    cases htoken'
    rfl

theorem mark {m : Mark} (h : x.Fits N v)
    (hperform : v.perform .mark = some (m, w)) :
    Fits { x with saved := some x.behind } N w := by
  cases hperform
  exact { h with saved := ⟨[], rfl, h.within, h.behind⟩ }

theorem reset {m : Mark} {behind : Bool} (h : x.Fits N v) (hsaved : x.saved = some behind)
    (hperform : v.perform (.reset m) = some ((), w)) :
    Fits { behind := behind, facing := none, saved := none } N w := by
  cases hperform
  have hrecalls := h.saved
  rw [hsaved] at hrecalls
  obtain ⟨pieces, hpieces, hwithin, hbehind⟩ := hrecalls
  refine { within := ?_, behind := ?_, facing := nofun, saved := rfl }
  · simpa [hpieces] using hwithin
  · simpa [hpieces] using hbehind

theorem release {m : Mark} (h : x.Fits N v) (hperform : v.perform (.release m) = some ((), w)) :
    Fits { x with saved := none } N w := by
  cases hperform
  exact { h with saved := rfl }

theorem forget {r : Request} {answer : r.Answer} (h : x.Fits N v) (hr : r.isTabular = true)
    (hperform : v.perform r = some (answer, w)) : x.forget.Fits N w := by
  obtain ⟨hahead, htaken⟩ := View.perform_of_isTabular hr hperform
  refine { within := hahead ▸ h.within, behind := ?_, facing := nofun, saved := ?_ }
  · exact fun hbehind => hahead ▸ h.behind hbehind
  · have hsaved := h.saved
    change Recalls N w x.saved
    unfold Recalls at hsaved ⊢
    rwa [hahead, htaken]

/-- Behind a rule that was called, fewer lexemes are ahead than there were. -/
theorem call (h : x.Fits N v) (hsaved : x.saved = none) (htaken : w.taken = none)
    (hlength : w.ahead.length ≤ v.ahead.length) : x.forget.Fits N w where
  within := Nat.le_trans hlength h.within
  behind := fun hbehind => Nat.lt_of_le_of_lt hlength (h.behind hbehind)
  facing := nofun
  saved := by
    change Recalls N w x.saved
    rw [hsaved]
    exact htaken

end Fits

end Stand

/-! ## Scripts abreast -/

namespace Script

variable {K : Correspondence} {α β : Type}

/-- The scripts are carried out side by side on corresponding views.  They make requests that do
corresponding things to the views, call rules that answer each other with fewer than `N` lexemes
ahead, and end in the same way, with values as `P` says. -/
inductive Abreast (K : Correspondence) (N : Nat) {α β : Type} (P : α → β → View → Prop) :
    Script α → Script β → View → View → Prop
  | done {a : α} {a' : β} {v v' : View} : P a a' v → K.Views v v' →
      Abreast K N P (.done a) (.done a') v v'
  | fail {e e' : ParseError} {v v' : View} : K.Refusals e e' →
      Abreast K N P (.fail e) (.fail e') v v'
  | request {r r' : Request} {next : r.Answer → Script α} {next' : r'.Answer → Script β}
      {A : r.Answer → r'.Answer → Prop} {v v' : View} : r'.isTabular = r.isTabular →
      K.Views v v' → K.Responds A (v.perform r) (v'.perform r') →
      (∀ answer answer' w w', v.perform r = some (answer, w) → A answer answer' → K.Views w w' →
        Abreast K N P (next answer) (next' answer') w w') →
      Abreast K N P (.request r next) (.request r' next') v v'
  | call {f f' : Nonterminal} {R : f.Result → f'.Result → Prop} {next : f.Result → Script α}
      {next' : f'.Result → Script β} {v v' : View} : f.Paired K f' R → K.Views v v' →
      v.taken = none → v.ahead.length < N →
      (∀ a a' w w', R a a' → K.Views w w' → w.taken = none → w.ahead.length ≤ v.ahead.length →
        Abreast K N P (next a) (next' a') w w') →
      Abreast K N P (.call f next) (.call f' next') v v'

/-- What agreement comes to on views: a stand that the view fits is handed on from request to
request, and where a rule is called it tells that a lexeme has been used up. -/
theorem Agree.abreast {N : Nat} {x : Stand} {prog : Script α} {prog' : Script β}
    {Q : α → β → Stand → Prop} {v v' : View} (h : Agree K x prog prog' Q)
    (hviews : K.Views v v') (hfits : x.Fits N v) :
    Abreast K N (fun a a' w => ∃ y, Q a a' y ∧ y.Fits N w) prog prog' v v' := by
  induction h generalizing v v' with
  | done hQ => exact .done ⟨_, hQ, hfits⟩ hviews
  | fail hrefusals => exact .fail hrefusals
  | peek _ ih =>
      refine .request rfl hviews (hviews.peek 0) ?_
      intro token token' w w' hperform htoken hviews
      exact ih token token' htoken hviews (hfits.face hperform)
  | @peekNth _ n _ _ _ _ ih =>
      refine .request rfl hviews (hviews.peek n) ?_
      intro token token' w w' hperform htoken hviews
      exact ih token token' htoken hviews (hfits.peekNth hperform)
  | advance _ ih =>
      refine .request rfl hviews hviews.advance ?_
      intro token token' w w' hperform htoken hviews
      obtain ⟨htake, hfacing⟩ := hfits.take hperform
      exact ih token token' htoken hfacing hviews htake
  | mark _ _ ih =>
      refine .request rfl hviews hviews.mark ?_
      rintro m m' w w' hperform rfl hviews
      exact ih m hviews (hfits.mark hperform)
  | @reset _ m m' _ _ _ _ hsaved _ ih =>
      refine .request rfl hviews (hviews.reset m m') ?_
      intro _ _ w w' hperform _ hviews
      exact ih hviews (hfits.reset hsaved hperform)
  | @release _ m m' _ _ _ _ ih =>
      refine .request rfl hviews (hviews.release m m') ?_
      intro _ _ w w' hperform _ hviews
      exact ih hviews (hfits.release hperform)
  | @enter _ kind _ _ _ _ ih =>
      refine .request rfl hviews (hviews.enter kind) ?_
      intro _ _ w w' hperform _ hviews
      exact ih hviews (hfits.forget rfl hperform)
  | @leave _ p p' _ _ _ _ ih =>
      refine .request rfl hviews (hviews.leave p p') ?_
      intro _ _ w w' hperform _ hviews
      exact ih hviews (hfits.forget rfl hperform)
  | @declare _ name _ _ _ _ _ hmeaning _ ih =>
      refine .request rfl hviews (hviews.declare name hmeaning) ?_
      intro _ _ w w' hperform _ hviews
      exact ih hviews (hfits.forget rfl hperform)
  | @declareEnumerator _ name _ _ _ _ ih =>
      refine .request rfl hviews (hviews.declareEnumerator name) ?_
      intro _ _ w w' hperform _ hviews
      exact ih hviews (hfits.forget rfl hperform)
  | call hpaired hbehind hsaved _ ih =>
      have htaken : v.taken = none := by simpa [Stand.Recalls, hsaved] using hfits.saved
      refine .call hpaired hviews htaken (hfits.behind hbehind) ?_
      intro a a' w w' ha hviews htaken hlength
      exact ih a a' ha hviews (hfits.call hsaved htaken hlength)

end Script

end CSyntax
