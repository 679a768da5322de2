import CSyntax.Proofs.Renaming.Views

/-!
# Scripts — what is read with new names

Two scripts are carried out side by side, the first on a view and the second on the view with new
names.  Where the first gives a value, the second gives the value with the new names and leaves such a
view again; but if a label has got the name of a type that is visible where the label is taken, the
second fails.  `Script.Renames` says so of scripts that begin where a scanner stands, and is closed
under sequencing; `Script.RenamesAt` is the form for a next token that has been looked at.

* `Parser.Renamed` — the calls of rules, with where they begin and end;
* `Parser.RenamesCalls` — what is assumed of the rules that are called.
-/

namespace CSyntax

/-! ## Requests -/

namespace Renaming.Related

variable {ρ : Renaming} {P : Nat → Prop} {σ τ : Scanner} {v v' : View}

theorem token? (h : ρ.Related P σ v v') : ∃ token token' next,
    v.token? 0 = some token ∧ v'.token? 0 = some token' ∧
      ρ.Twins (σ.nameSpace token.position.offset next) token token' := by
  cases hahead : v.ahead with
  | nil =>
      obtain ⟨p, hp⟩ := h.ending
      obtain ⟨p', hp'⟩ := h.ending'
      refine ⟨⟨.endOfFile, p⟩, ⟨.endOfFile, p'⟩, none, ?_, ?_, rfl, fun _ => rfl⟩
      · simp [View.token?, hahead, hp, Except.toOption]
      · simp [View.token?, h.nil hahead, hp', Except.toOption]
  | cons piece others =>
      obtain ⟨piece', others', hahead', htwins, -, -⟩ := h.cons hahead
      exact ⟨v.next piece, v'.next piece', _, by simp [View.token?, hahead],
        by simp [View.token?, hahead'], htwins⟩

/-- A token that is not the end of the text is a lexeme ahead, on both sides. -/
theorem exists_cons (h : ρ.Related P σ v v') {token : Token} (htoken : v.token? 0 = some token)
    (hkind : token.kind ≠ .endOfFile) : ∃ piece others piece' others',
      v.ahead = piece :: others ∧ token = v.next piece ∧ v'.ahead = piece' :: others' := by
  have hfirst : (v.facing v.ahead).token? 0 = some token := htoken
  obtain ⟨piece, others, hahead, rfl⟩ := View.lexeme_of_token? hfirst hkind
  obtain ⟨piece', others', hahead', -⟩ := h.cons hahead
  exact ⟨piece, others, piece', others', hahead, rfl, hahead'⟩

theorem enter (h : ρ.Related P σ v v') (kind : ScopeKind) :
    ρ.Related P σ { v with table := v.table.enter kind } { v' with table := v'.table.enter kind } where
  ahead := h.ahead
  ending := h.ending
  ending' := h.ending'
  table := by rw [SymbolTable.mapTypes_enter, h.table, SymbolTable.mapTypes_enter]
  regular := ⟨h.regular.unmarked, h.regular.keywordFree.enter kind⟩
  regular' := ⟨h.regular'.unmarked, h.regular'.keywordFree.enter kind⟩

theorem leave (h : ρ.Related P σ v v') {T : SymbolTable} (hleave : v.table.leave? = some T) :
    ∃ T', v'.table.leave? = some T' ∧
      ρ.Related P σ { v with table := T } { v' with table := T' } := by
  have hsame := SymbolTable.mapTypes_leave? CType.erase v'.table
  rw [← h.table, ← SymbolTable.mapTypes_leave?, hleave, Option.map_some,
    Option.map_eq_some_iff] at hsame
  obtain ⟨T', hleave', htable⟩ := hsame
  exact ⟨T', hleave', h.ahead, h.ending, h.ending', htable.symm,
    ⟨h.regular.unmarked, h.regular.keywordFree.leave hleave⟩,
    ⟨h.regular'.unmarked, h.regular'.keywordFree.leave hleave'⟩⟩

theorem declare (h : ρ.Related P σ v v') {name : String} (hname : Unreserved name)
    {meaning meaning' : Meaning}
    (hmeaning : meaning.mapType (fun type => (type.respell ρ).erase) = meaning'.mapType CType.erase) :
    ρ.Related P σ { v with table := v.table.declare name meaning }
      { v' with table := v'.table.declare name meaning' } where
  ahead := h.ahead
  ending := h.ending
  ending' := h.ending'
  table := by
    rw [SymbolTable.mapTypes_declare, h.table, hmeaning, ← SymbolTable.mapTypes_declare]
  regular := ⟨h.regular.unmarked, h.regular.keywordFree.declare hname meaning⟩
  regular' := ⟨h.regular'.unmarked, h.regular'.keywordFree.declare hname meaning'⟩

theorem declareEnumerator (h : ρ.Related P σ v v') {name : String} (hname : Unreserved name) :
    ρ.Related P σ { v with table := v.table.declareEnumerator name }
      { v' with table := v'.table.declareEnumerator name } where
  ahead := h.ahead
  ending := h.ending
  ending' := h.ending'
  table := by
    rw [SymbolTable.mapTypes_declareEnumerator, h.table, ← SymbolTable.mapTypes_declareEnumerator]
  regular := ⟨h.regular.unmarked, h.regular.keywordFree.declareEnumerator hname⟩
  regular' := ⟨h.regular'.unmarked, h.regular'.keywordFree.declareEnumerator hname⟩

/-- Where the next token labels no statement, no label is in the way. -/
theorem clear (h : ρ.Related P σ v v') {token : Token} (htoken : v.token? 0 = some token)
    (hnot : σ.expects = .statement → token.kind.words = []) : ρ.Clear P v := by
  intro piece hpiece hlabel
  obtain ⟨others, hahead⟩ := List.head?_eq_some_iff.1 hpiece
  obtain ⟨piece', others', -, -, hiff, -⟩ := h.cons hahead
  obtain ⟨hexpects, hwords, -⟩ := hiff.1 hlabel
  have hnext : token = v.next piece := by simpa [View.token?, hahead, eq_comm] using htoken
  exact absurd (hnot hexpects) (hnext ▸ hwords)

end Renaming.Related

/-! ## Scripts side by side -/

namespace Script

variable {α β γ δ : Type} {ρ : Renaming} {P : Nat → Prop} {depth : Nat} {v v' w : View}

/-- If the first script gives a value, the second gives a value as long as no label is in the way, and
then the values and the views that are left are as `E` and the scanner say. -/
def Tracks (ρ : Renaming) (P : Nat → Prop) (depth : Nat) (prog : Script α) (prog' : Script β)
    (v v' : View) (E : α → β → Prop) (τ : α → Scanner) : Prop :=
  ∀ a w, prog.read (Parser.readAt depth) v = some (a, w) →
    (prog.Observes (ρ.Clear P) (Parser.readAt depth) (Parser.observesAt (ρ.Clear P) depth) v ↔
      ∃ a' w', prog'.Takes v' a' w') ∧
    ∀ a' w', prog'.Takes v' a' w' → E a a' ∧ ρ.Related P (τ a) w w'

theorem takes_request_iff {r : Request} {next : r.Answer → Script α} {a : α} :
    (Script.request r next).Takes v a w ↔
      ∃ answer u, v.perform r = some (answer, u) ∧ (next answer).Takes u a w := by
  constructor
  · rintro ⟨depth, hread⟩
    obtain ⟨⟨answer, u⟩, hperform, hnext⟩ := Option.bind_eq_some_iff.1 hread
    exact ⟨answer, u, hperform, depth, hnext⟩
  · rintro ⟨answer, u, hperform, hnext⟩
    exact .request hperform hnext

namespace Tracks

variable {prog : Script α} {prog' : Script β} {E : α → β → Prop} {τ : α → Scanner}

theorem request (r r' : Request) {next : r.Answer → Script α} {next' : r'.Answer → Script β}
    {answer : r.Answer} {answer' : r'.Answer} {u u' : View} (h : v.perform r = some (answer, u))
    (h' : v'.perform r' = some (answer', u')) (hclear : r = .advance → ρ.Clear P v)
    (hnext : Tracks ρ P depth (next answer) (next' answer') u u' E τ) :
    Tracks ρ P depth (.request r next) (.request r' next') v v' E τ := by
  intro a w hread
  simp only [read, h, Option.bind_some] at hread
  obtain ⟨hiff, hends⟩ := hnext a w hread
  -- The second script takes what is behind its request, since that has one answer.
  have htakes : ∀ a' w', (Script.request r' next').Takes v' a' w' ↔
      (next' answer').Takes u' a' w' := by
    intro a' w'
    rw [takes_request_iff]
    constructor
    · rintro ⟨answer₁, u₁, hperform, hrest⟩
      rw [h'] at hperform
      cases hperform
      exact hrest
    · exact fun hrest => ⟨answer', u', h', hrest⟩
  have hobserves : (Script.request r next).Observes (ρ.Clear P) (Parser.readAt depth)
      (Parser.observesAt (ρ.Clear P) depth) v ↔ (next answer).Observes (ρ.Clear P)
        (Parser.readAt depth) (Parser.observesAt (ρ.Clear P) depth) u := by
    constructor
    · exact fun hall => hall.2 answer u h
    · refine fun hrest => ⟨hclear, fun answer₁ u₁ hperform => ?_⟩
      rw [h] at hperform
      cases hperform
      exact hrest
  simp only [htakes, hobserves]
  exact ⟨hiff, hends⟩

theorem bind {next : α → Script γ} {next' : β → Script δ} {E' : γ → δ → Prop}
    {τ' : γ → Scanner} (h : Tracks ρ P depth prog prog' v v' E τ)
    (hnext : ∀ a a' w w', E a a' → ρ.Related P (τ a) w w' →
      Tracks ρ P depth (next a) (next' a') w w' E' τ') :
    Tracks ρ P depth (prog >>= next) (prog' >>= next') v v' E' τ' := by
  intro c x hread
  obtain ⟨a, w, hprog, hrest⟩ := bind_of_read hread
  obtain ⟨hiff, hends⟩ := h a w hprog
  refine ⟨?_, ?_⟩
  · rw [observes_bind]
    constructor
    · rintro ⟨hfirst, hlater⟩
      obtain ⟨a', w', htakes⟩ := hiff.1 hfirst
      obtain ⟨hE, hrelated⟩ := hends a' w' htakes
      obtain ⟨c', x', htakes'⟩ := (hnext a a' w w' hE hrelated c x hrest).1.1 (hlater a w hprog)
      exact ⟨c', x', htakes.bind htakes'⟩
    · rintro ⟨c', x', htakes⟩
      obtain ⟨a', w', hfirst, hlater⟩ := htakes.exists_bind
      obtain ⟨hE, hrelated⟩ := hends a' w' hfirst
      refine ⟨hiff.2 ⟨a', w', hfirst⟩, fun b u hb => ?_⟩
      -- The first script has only one value to give.
      rw [hprog] at hb
      cases hb
      exact (hnext a a' w w' hE hrelated c x hrest).1.2 ⟨c', x', hlater⟩
  · intro c' x' htakes
    obtain ⟨a', w', hfirst, hlater⟩ := htakes.exists_bind
    obtain ⟨hE, hrelated⟩ := hends a' w' hfirst
    exact (hnext a a' w w' hE hrelated c x hrest).2 c' x' hlater

theorem of_unread (h : ∀ a w, prog.read (Parser.readAt depth) v ≠ some (a, w)) :
    Tracks ρ P depth prog prog' v v' E τ :=
  fun a w hread => absurd hread (h a w)

/-- Where a label is in the way, nothing more is asked of the second script than to fail. -/
theorem of_stuck
    (h : ¬prog.Observes (ρ.Clear P) (Parser.readAt depth) (Parser.observesAt (ρ.Clear P) depth) v)
    (h' : ∀ a' w', ¬prog'.Takes v' a' w') : Tracks ρ P depth prog prog' v v' E τ := by
  refine fun a w _ => ⟨⟨fun hobserves => absurd hobserves h, ?_⟩, ?_⟩
  · rintro ⟨a', w', htakes⟩
    exact absurd htakes (h' a' w')
  · exact fun a' w' htakes => absurd htakes (h' a' w')

/-! ### The next two tokens -/

variable {σ : Scanner} {token : Token} {next : Token → Script α} {next' : Token → Script β}

theorem peek {token' : Token} (htoken : v.token? 0 = some token) (htoken' : v'.token? 0 = some token')
    (h : Tracks ρ P depth (next token) (next' token') v v' E τ) :
    Tracks ρ P depth (Script.peek >>= next) (Script.peek >>= next') v v' E τ := by
  have hlook : v.perform (.peek 0) = some (token, v) := by
    rw [View.perform, htoken]
    rfl
  have hlook' : v'.perform (.peek 0) = some (token', v') := by
    rw [View.perform, htoken']
    rfl
  exact .request (.peek 0) (.peek 0) hlook hlook' (by simp) h

theorem advance (hv : ρ.Related P σ v v') (htoken : v.token? 0 = some token)
    (hkind : token.kind ≠ .endOfFile) (hclear : ρ.Clear P v)
    (h : ∀ token' second w w', v'.token? 0 = some token' →
      ρ.Twins (σ.nameSpace token.position.offset second) token token' →
      ρ.Related P (σ.after token.kind token.position.offset) w w' → w.token? 0 = v.token? 1 →
      Tracks ρ P depth (next token) (next' token') w w' E τ) :
    Tracks ρ P depth (Script.advance >>= next) (Script.advance >>= next') v v' E τ := by
  obtain ⟨piece, others, piece', others', hahead, rfl, -⟩ := hv.exists_cons htoken hkind
  obtain ⟨piece', others', hahead', htwins, -, hrest⟩ := hv.cons hahead
  have htaken := hv.regular.unmarked
  have htaken' := hv.regular'.unmarked
  have htake : v.perform .advance = some (v.next piece, v.facing others) := by
    simp [View.perform, View.token?, View.facing, hahead, htaken]
  have htake' : v'.perform .advance = some (v'.next piece', v'.facing others') := by
    simp [View.perform, View.token?, View.facing, hahead', htaken']
  have hnext' : v'.token? 0 = some (v'.next piece') := by
    simp [View.token?, hahead']
  exact .request .advance .advance htake htake' (fun _ => hclear)
    (h _ _ _ _ hnext' htwins hrest (View.token?_facing hahead))

theorem peekNth_one (hv : ρ.Related P σ v v') (htoken : v.token? 0 = some token)
    (hkind : token.kind ≠ .endOfFile)
    (h : ∀ second second' third, v.token? 1 = some second → v'.token? 1 = some second' →
      ρ.Twins ((σ.after token.kind token.position.offset).nameSpace second.position.offset third)
        second second' →
      Tracks ρ P depth (next second) (next' second') v v' E τ) :
    Tracks ρ P depth (Script.peekNth 1 >>= next) (Script.peekNth 1 >>= next') v v' E τ := by
  obtain ⟨piece, others, piece', others', hahead, rfl, -⟩ := hv.exists_cons htoken hkind
  obtain ⟨piece', others', hahead', -, -, hrest⟩ := hv.cons hahead
  obtain ⟨second, second', third, hsecond, hsecond', htwins⟩ := hrest.token?
  rw [View.token?_facing hahead] at hsecond
  rw [View.token?_facing hahead'] at hsecond'
  have hlook : v.perform (.peek 1) = some (second, v) := by
    rw [View.perform, hsecond]
    rfl
  have hlook' : v'.perform (.peek 1) = some (second', v') := by
    rw [View.perform, hsecond']
    rfl
  exact .request (.peek 1) (.peek 1) hlook hlook' (by simp) (h _ _ _ hsecond hsecond' htwins)

end Tracks

/-- The second script does with new names what the first does, where the scanner stands; behind the
value the scanner stands as `τ` says. -/
def Renames (ρ : Renaming) (P : Nat → Prop) (depth : Nat) (σ : Scanner) (prog : Script α)
    (prog' : Script β) (E : α → β → Prop) (τ : α → Scanner) : Prop :=
  ∀ v v', ρ.Related P σ v v' → Tracks ρ P depth prog prog' v v' E τ

/-- As `Renames`, where the token comes next in the first view. -/
def RenamesAt (ρ : Renaming) (P : Nat → Prop) (depth : Nat) (σ : Scanner) (token : Token)
    (prog : Script α) (prog' : Script β) (E : α → β → Prop) (τ : α → Scanner) : Prop :=
  ∀ v v', ρ.Related P σ v v' → v.token? 0 = some token → Tracks ρ P depth prog prog' v v' E τ

variable {σ υ : Scanner} {prog : Script α} {prog' : Script β} {next : α → Script γ}
  {next' : β → Script δ} {E : α → β → Prop} {E' : γ → δ → Prop} {τ : α → Scanner}
  {τ' : γ → Scanner} {token : Token}

namespace RenamesAt

/-- The token does not matter. -/
theorem any (h : Renames ρ P depth σ prog prog' E τ) : RenamesAt ρ P depth σ token prog prog' E τ :=
  fun v v' hv _ => h v v' hv

theorem bind (h : RenamesAt ρ P depth σ token prog prog' E τ)
    (hnext : ∀ a a', E a a' → Renames ρ P depth (τ a) (next a) (next' a') E' τ') :
    RenamesAt ρ P depth σ token (prog >>= next) (prog' >>= next') E' τ' :=
  fun v v' hv htoken => (h v v' hv htoken).bind fun a a' w w' hE hw => hnext a a' hE w w' hw

/-- The scanner may stand elsewhere if that makes no difference to the token. -/
theorem relax (hagree : ∀ next, σ.Agrees υ token.kind token.position.offset next)
    (h : RenamesAt ρ P depth υ token prog prog' E τ) :
    RenamesAt ρ P depth σ token prog prog' E τ := by
  intro v v' hv htoken
  refine h v v' (hv.relax fun piece others hahead => ?_) htoken
  have hnext : token = v.next piece := by simpa [View.token?, hahead, eq_comm] using htoken
  simpa [hnext, View.next] using hagree (others.head?.map v.kind)

/-- The next token is taken. -/
theorem advance {next : Token → Script α} {next' : Token → Script β}
    (hkind : token.kind ≠ .endOfFile) (hnot : σ.expects = .statement → token.kind.words = [])
    (hafter : σ.after token.kind token.position.offset = υ)
    (h : ∀ token' second, ρ.Twins (σ.nameSpace token.position.offset second) token token' →
      Renames ρ P depth υ (next token) (next' token') E τ) :
    RenamesAt ρ P depth σ token (Script.advance >>= next) (Script.advance >>= next') E τ :=
  fun _ _ hv htoken => .advance hv htoken hkind (hv.clear htoken hnot)
    fun token' second _ _ _ htwins hw _ => h token' second htwins _ _ (hafter ▸ hw)

/-- A token that is no word is taken; the other is of its kind. -/
theorem advance_same {kind : TokenKind} {p : Position} {next : Token → Script α}
    {next' : Token → Script β} (hwords : kind.words = []) (hkind : kind ≠ .endOfFile)
    (hafter : σ.after kind p.offset = υ)
    (h : ∀ p', Renames ρ P depth υ (next ⟨kind, p⟩) (next' ⟨kind, p'⟩) E τ) :
    RenamesAt ρ P depth σ ⟨kind, p⟩ (Script.advance >>= next) (Script.advance >>= next') E τ := by
  refine .advance hkind (fun _ => hwords) hafter ?_
  rintro ⟨kind', p'⟩ second htwins
  obtain rfl : kind' = kind := (htwins.kind_iff hwords).2 rfl
  exact h p'

/-- The same where nothing is expected. -/
theorem take {next : Token → Script α} {next' : Token → Script β} (hexpects : σ.expects = .nothing)
    (hkind : token.kind ≠ .endOfFile) (hafter : σ.after token.kind token.position.offset = υ)
    (h : ∀ token', Renames ρ P depth υ (next token) (next' token') E τ) :
    RenamesAt ρ P depth σ token (Script.advance >>= next) (Script.advance >>= next') E τ :=
  .advance hkind (fun hstatement => by simp [hexpects] at hstatement) hafter
    fun token' _ _ => h token'

/-- A look at the token behind the next one. -/
theorem peekNth_one {next : Token → Script α} {next' : Token → Script β}
    (hkind : token.kind ≠ .endOfFile)
    (h : ∀ second second' third,
      ρ.Twins ((σ.after token.kind token.position.offset).nameSpace second.position.offset third)
        second second' →
      RenamesAt ρ P depth σ token (next second) (next' second') E τ) :
    RenamesAt ρ P depth σ token (Script.peekNth 1 >>= next) (Script.peekNth 1 >>= next') E τ :=
  fun v v' hv htoken => .peekNth_one hv htoken hkind fun second second' third _ _ htwins =>
    h second second' third htwins v v' hv htoken

end RenamesAt

namespace Renames

theorem bind (h : Renames ρ P depth σ prog prog' E τ)
    (hnext : ∀ a a', E a a' → Renames ρ P depth (τ a) (next a) (next' a') E' τ') :
    Renames ρ P depth σ (prog >>= next) (prog' >>= next') E' τ' :=
  fun v v' hv => (h v v' hv).bind fun a a' w w' hE hw => hnext a a' hE w w' hw

theorem pure {a : α} {a' : β} (h : E a a') (hτ : τ a = σ) :
    Renames ρ P depth σ (Pure.pure a) (Pure.pure a') E τ := by
  intro v v' hv b w hread
  obtain ⟨rfl, rfl⟩ := pure_of_read hread
  refine ⟨⟨fun _ => ⟨a', v', .pure⟩, fun _ => trivial⟩, fun b' w' htakes => ?_⟩
  obtain ⟨rfl, rfl⟩ := htakes.unique .pure
  exact ⟨h, hτ ▸ hv⟩

/-- Nothing is asked where the first script fails. -/
theorem fail {error : ParseError} : Renames ρ P depth σ (.fail error) prog' E τ :=
  fun _ _ _ => .of_unread fun _ _ hread => by cases hread

theorem refuse {token : Token} {fault : GrammarFault} :
    Renames ρ P depth σ (Script.refuse token fault) prog' E τ :=
  fail

theorem contradict {position : Position} {fault : InternalFault} :
    Renames ρ P depth σ (Script.contradict position fault) prog' E τ :=
  fail

theorem contradictAt {token : Token} {fault : InternalFault} :
    Renames ρ P depth σ (Script.contradictAt token fault) prog' E τ :=
  fail

/-- What is known of the value anyway may be used. -/
theorem orderly {F : α → Prop} (h : Renames ρ P depth σ prog prog' E τ) (hprog : prog.Orderly F) :
    Renames ρ P depth σ prog prog' (fun a a' => E a a' ∧ F a) τ := by
  intro v v' hv a w hread
  obtain ⟨hiff, hends⟩ := h v v' hv a w hread
  have hF := Takes.property_of_orderly ⟨depth, hread⟩ hprog hv.regular
  exact ⟨hiff, fun a' w' htakes => (hends a' w' htakes).imp_left fun hE => ⟨hE, hF⟩⟩

/-! ### Requests -/

/-- What follows a look at the next token goes on from tokens that are twins. -/
theorem peek {next : Token → Script α} {next' : Token → Script β}
    (h : ∀ token token' second, ρ.Twins (σ.nameSpace token.position.offset second) token token' →
      RenamesAt ρ P depth σ token (next token) (next' token') E τ) :
    Renames ρ P depth σ (Script.peek >>= next) (Script.peek >>= next') E τ := by
  intro v v' hv
  obtain ⟨token, token', second, htoken, htoken', htwins⟩ := hv.token?
  exact .peek htoken htoken' (h _ _ _ htwins v v' hv htoken)

/-- Where words are ordinary, the next tokens are of the same kind. -/
theorem peek_ordinary {next : Token → Script α} {next' : Token → Script β}
    (hspace : ∀ offset second, σ.nameSpace offset second = .ordinary)
    (h : ∀ kind p p', RenamesAt ρ P depth σ ⟨kind, p⟩ (next ⟨kind, p⟩) (next' ⟨kind, p'⟩) E τ) :
    Renames ρ P depth σ (Script.peek >>= next) (Script.peek >>= next') E τ := by
  refine peek ?_
  rintro ⟨kind, p⟩ ⟨kind', p'⟩ second htwins
  obtain rfl : kind' = kind := htwins.kind (Or.inl (hspace _ _))
  exact h kind' p p'

theorem enter (kind : ScopeKind) :
    Renames ρ P depth σ (Script.enter kind) (Script.enter kind) (fun _ _ => True) fun _ => σ :=
  fun _ _ hv => .request (.enter kind) (.enter kind) rfl rfl nofun
    (pure trivial rfl _ _ (hv.enter kind))

theorem leave (p p' : Position) :
    Renames ρ P depth σ (Script.leave p) (Script.leave p') (fun _ _ => True) fun _ => σ := by
  intro v v' hv
  cases hleave : v.table.leave? with
  | none =>
      refine .of_unread fun a w hread => ?_
      obtain ⟨T, hT, -⟩ := leave_of_read hread
      rw [hleave] at hT
      cases hT
  | some T =>
      obtain ⟨T', hleave', hleft⟩ := hv.leave hleave
      have hout : v.perform (.leave p) = some ((), { v with table := T }) := by
        simp [View.perform, hleave]
      have hout' : v'.perform (.leave p') = some ((), { v' with table := T' }) := by
        simp [View.perform, hleave']
      exact .request (.leave p) (.leave p') hout hout' (by simp) (pure trivial rfl _ _ hleft)

theorem declare {name : String} (hname : Unreserved name) {meaning meaning' : Meaning}
    (hmeaning : meaning.mapType (fun type => (type.respell ρ).erase) = meaning'.mapType CType.erase) :
    Renames ρ P depth σ (Script.declare name meaning) (Script.declare name meaning')
      (fun _ _ => True) fun _ => σ :=
  fun _ _ hv => .request (.declare name meaning) (.declare name meaning') rfl rfl nofun
    (pure trivial rfl _ _ (hv.declare hname hmeaning))

theorem declareEnumerator {name : String} (hname : Unreserved name) :
    Renames ρ P depth σ (Script.declareEnumerator name) (Script.declareEnumerator name)
      (fun _ _ => True) fun _ => σ :=
  fun _ _ hv => .request (.declareEnumerator name) (.declareEnumerator name) rfl rfl nofun
    (pure trivial rfl _ _ (hv.declareEnumerator hname))

/-! ### Single tokens -/

variable {kind : TokenKind} {mark : Punctuator} {yes no : Script α} {yes' no' : Script β}

theorem nextIs (hkind : kind.words = [])
    (hyes : ∀ token, token.kind = kind → RenamesAt ρ P depth σ token yes yes' E τ)
    (hno : ∀ token, token.kind ≠ kind → RenamesAt ρ P depth σ token no no' E τ) :
    Renames ρ P depth σ (Script.nextIs kind >>= fun found => if found = true then yes else no)
      (Script.nextIs kind >>= fun found => if found = true then yes' else no') E τ := by
  change Renames ρ P depth σ
    (Script.peek >>= fun token => if decide (token.kind = kind) = true then yes else no)
    (Script.peek >>= fun token => if decide (token.kind = kind) = true then yes' else no') E τ
  refine peek fun token token' second htwins => ?_
  have hiff := htwins.kind_iff hkind
  by_cases hfound : token.kind = kind
  · simpa [hfound, hiff.2 hfound] using hyes token hfound
  · simpa [hfound, hiff] using hno token hfound

theorem nextIsMark
    (hyes : ∀ token, token.kind = .punctuator mark → RenamesAt ρ P depth σ token yes yes' E τ)
    (hno : ∀ token, token.kind ≠ .punctuator mark → RenamesAt ρ P depth σ token no no' E τ) :
    Renames ρ P depth σ (Script.nextIsMark mark >>= fun found => if found = true then yes else no)
      (Script.nextIsMark mark >>= fun found => if found = true then yes' else no') E τ :=
  nextIs rfl hyes hno

/-- A token of the kind is taken only if it is next. -/
theorem accept (hkind : kind.words = []) (hend : kind ≠ .endOfFile)
    (hafter : ∀ offset, σ.after kind offset = υ) (hyes : Renames ρ P depth υ yes yes' E τ)
    (hno : ∀ token, token.kind ≠ kind → RenamesAt ρ P depth σ token no no' E τ) :
    Renames ρ P depth σ (Script.accept kind >>= fun found => if found = true then yes else no)
      (Script.accept kind >>= fun found => if found = true then yes' else no') E τ := by
  rw [Script.accept_bind, Script.accept_bind]
  refine nextIs hkind (fun token htoken => ?_) (by simpa using hno)
  refine .advance (htoken ▸ hend) (fun _ => htoken ▸ hkind) (htoken ▸ hafter _) ?_
  exact fun _ _ _ => by simpa using hyes

theorem acceptMark (hafter : σ.mark mark = υ) (hyes : Renames ρ P depth υ yes yes' E τ)
    (hno : ∀ token, token.kind ≠ .punctuator mark → RenamesAt ρ P depth σ token no no' E τ) :
    Renames ρ P depth σ (Script.acceptMark mark >>= fun found => if found = true then yes else no)
      (Script.acceptMark mark >>= fun found => if found = true then yes' else no') E τ :=
  accept rfl nofun (fun _ => hafter) hyes hno

theorem expect (hkind : kind.words = []) (hend : kind ≠ .endOfFile)
    (hafter : ∀ offset, σ.after kind offset = υ) :
    Renames ρ P depth σ (Script.expect kind) (Script.expect kind) (fun _ _ => True) fun _ => υ := by
  refine peek fun token token' second htwins => ?_
  by_cases hfound : token.kind = kind
  · rw [if_pos hfound, if_pos ((htwins.kind_iff hkind).2 hfound)]
    have htake : RenamesAt ρ P depth σ token (Script.advance >>= Pure.pure)
        (Script.advance >>= Pure.pure) (fun _ _ => True) fun _ => υ :=
      .advance (hfound ▸ hend) (fun _ => hfound ▸ hkind) (hfound ▸ hafter _)
        fun _ _ _ => pure trivial rfl
    rwa [bind_pure] at htake
  · rw [if_neg hfound]
    exact .any refuse

theorem expectMark (hafter : σ.mark mark = υ) : Renames ρ P depth σ (Script.expectMark mark)
    (Script.expectMark mark) (fun _ _ => True) fun _ => υ :=
  expect rfl nofun fun _ => hafter

/-- A word that has to come next, where the token behind it does not matter. -/
theorem expectWord {space : NameSpace} (hspace : ∀ offset next, σ.nameSpace offset next = space)
    (hexpects : σ.expects ≠ .statement) (hafter : σ.word = υ) :
    Renames ρ P depth σ Script.expectWord Script.expectWord
      (fun name name' => name' = ρ.name space name) fun _ => υ := by
  intro v v' hv
  obtain ⟨token, token', second, htoken, -, -⟩ := hv.token?
  by_cases hwords : token.kind.words = []
  · refine .of_unread fun a w hread => ?_
    obtain ⟨taken, u, htake, hrest⟩ := bind_of_read hread
    rw [(advance_of_read htake).1] at htoken
    cases htoken
    split at hrest
    · rename_i name hkind
      simp [hkind, TokenKind.words] at hwords
    · rename_i name hkind
      simp [hkind, TokenKind.words] at hwords
    · cases hrest
  · have hword : σ.after token.kind token.position.offset = υ := by
      rw [← hafter]
      cases hkind : token.kind <;> first | rfl | simp [hkind, TokenKind.words] at hwords
    refine RenamesAt.advance (fun hend => hwords (by simp [hend, TokenKind.words]))
      (fun h => absurd h hexpects) hword (fun token' second htwins => ?_) v v' hv htoken
    rw [hspace] at htwins
    have htwin := htwins.words
    cases hkind : token.kind with
    | identifier name | typeName name =>
        simp only [hkind, TokenKind.words, List.map_cons, List.map_nil] at htwin
        cases hkind' : token'.kind with
        | identifier name' | typeName name' =>
            exact pure (by simpa [hkind', TokenKind.words] using htwin) rfl
        | _ => simp [hkind'] at htwin
    | _ => simp [hkind, TokenKind.words] at hwords

theorem acceptWord {space : NameSpace} (hspace : ∀ offset next, σ.nameSpace offset next = space)
    (hexpects : σ.expects ≠ .statement) :
    Renames ρ P depth σ Script.acceptWord Script.acceptWord
      (fun name name' => name' = name.map (ρ.name space))
      fun name => if name.isSome then σ.word else σ := by
  have hword : Renames ρ P depth σ (Script.expectWord >>= fun name => Pure.pure (some name))
      (Script.expectWord >>= fun name => Pure.pure (some name))
      (fun name name' => name' = name.map (ρ.name space))
      fun name => if name.isSome then σ.word else σ :=
    (expectWord hspace hexpects rfl).bind fun name name' hname => pure (by simp [hname]) rfl
  refine peek fun token token' second htwins => ?_
  rcases htwins.cases with ⟨-, hsame⟩ | ⟨name, hname, hname'⟩
  · rw [hsame]
    split
    · exact .any hword
    · exact .any hword
    · exact .any (pure rfl rfl)
  · cases hkind : token.kind with
    | identifier _ | typeName _ =>
        cases hkind' : token'.kind with
        | identifier _ | typeName _ => exact .any hword
        | _ => simp [hkind', TokenKind.words] at hname'
    | _ => simp [hkind, TokenKind.words] at hname

theorem here : Renames ρ P depth σ Script.here Script.here (fun _ _ => True) fun _ => σ :=
  peek fun _ _ _ _ => .any (pure trivial rfl)

end Renames
end Script
end CSyntax
