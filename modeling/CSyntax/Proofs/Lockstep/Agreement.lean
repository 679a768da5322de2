import CSyntax.Parser.Basic
import CSyntax.Proofs.Scope.Mapping
import CSyntax.Proofs.Stream.Classification
import CSyntax.Proofs.Stream.Floating
import CSyntax.Proofs.Tree.Erasure

/-!
# Agreement — scripts that do the same on corresponding tokens

Two parsers that read corresponding texts are handed tokens of the same kinds at different places.
Their scripts then make the same requests and the same calls, with data that differ in positions
alone.  This file says when two scripts agree in that sense:

* `Correspondence` — which positions and which lexical faults of the two texts answer each other;
* `Nonterminal.Paired` — which calls do, and how their results are related;
* `Script.Agree` — the relation between scripts, along all answers that correspond;
* `Script.Sync` — its form for the scripts of the grammar, closed under sequencing.

Along with that the relation keeps account of tokens taken: a rule is called only behind a token
that has been taken since the calling rule was begun.  Since `Script.Agree` says so of all calls, it
bounds how deeply calls nest.
-/

namespace CSyntax

/-! ## What corresponds -/

/-- How two texts correspond. -/
structure Correspondence where
  /-- Positions that answer each other. -/
  positions : Position → Position → Prop
  /-- The faults that end the lexemes of the two texts, where both end in one. -/
  faults : ParseError → ParseError → Prop

namespace Correspondence

variable (K : Correspondence)

structure Tokens (token token' : Token) : Prop where
  kind : token'.kind = token.kind
  position : K.positions token.position token'.position
  readable : token.kind.lexeme.Readable

/-- Failures of scripts: the same fault of the grammar, at positions that answer each other. -/
structure Refusals (error error' : ParseError) : Prop where
  grammatical : ∃ fault, error.cause = .grammatical fault
  cause : error'.cause = error.cause
  start : K.positions error.start error'.start

structure OfSpecifiers (specifiers specifiers' : Specifiers) : Prop where
  base : Alike CType.erase specifiers.base specifiers'.base
  storage : specifiers.storage = specifiers'.storage
  isTypedef : specifiers.isTypedef = specifiers'.isTypedef
  qualifiers : specifiers.qualifiers = specifiers'.qualifiers
  position : K.positions specifiers.position specifiers'.position

/-- Declarators that were read in the mode.  Where a name is asked for, there is one. -/
structure OfDeclarators (mode : DeclaratorMode) (d d' : Declarator) : Prop where
  named : mode = .named → d.name ≠ none
  name : Option.Rel (fun n n' => n.1 = n'.1 ∧ K.positions n.2 n'.2) d.name d'.name
  modifiers : Alike (List.map TypeModifier.erase) d.modifiers d'.modifiers

end Correspondence

/-- A meaning without the positions in the type that it may have. -/
def Meaning.erase : Meaning → Meaning :=
  .mapType CType.erase

/-- Calls of rules that answer each other, with the relation between their results. -/
inductive Nonterminal.Paired (K : Correspondence) :
    (f f' : Nonterminal) → (f.Result → f'.Result → Prop) → Prop
  | expression (limit : Precedence) :
      Paired K (.expression limit) (.expression limit) (Alike Expr.erase)
  | infixTail (limit : Precedence) {left left' : Expr} : Alike Expr.erase left left' →
      Paired K (.infixTail limit left) (.infixTail limit left') (Alike Expr.erase)
  | postfixTail {operand operand' : Expr} : Alike Expr.erase operand operand' →
      Paired K (.postfixTail operand) (.postfixTail operand') (Alike Expr.erase)
  | «arguments» : Paired K .arguments .arguments (Alike (List.map Expr.erase))
  | adjacentStrings : Paired K .adjacentStrings .adjacentStrings Eq
  | typeName : Paired K .typeName .typeName (Alike CType.erase)
  | specifierTail {tally tally' : SpecifierTally} : Alike SpecifierTally.erase tally tally' →
      Paired K (.specifierTail tally) (.specifierTail tally') (Alike SpecifierTally.erase)
  | members : Paired K .members .members (Alike (List.map Member.erase))
  | memberDeclarators {specifiers specifiers' : Specifiers} :
      K.OfSpecifiers specifiers specifiers' →
      Paired K (.memberDeclarators specifiers) (.memberDeclarators specifiers')
        (Alike (List.map Member.erase))
  | enumerators : Paired K .enumerators .enumerators (Alike (List.map Enumerator.erase))
  | pointerTail : Paired K .pointerTail .pointerTail Eq
  | declarator (mode : DeclaratorMode) :
      Paired K (.declarator mode) (.declarator mode) (K.OfDeclarators mode)
  | suffixes : Paired K .suffixes .suffixes (Alike (List.map TypeModifier.erase))
  | parameters : Paired K .parameters .parameters (Alike (Prod.map (List.map Parameter.erase) id))
  | initializerItems : Paired K .initializerItems .initializerItems (Alike (List.map Expr.erase))
  | initDeclarators {specifiers specifiers' : Specifiers} :
      K.OfSpecifiers specifiers specifiers' →
      Paired K (.initDeclarators specifiers) (.initDeclarators specifiers')
        (Alike (List.map Declaration.erase))
  | statement : Paired K .statement .statement (Alike Statement.erase)
  | blockItems : Paired K .blockItems .blockItems (Alike (List.map Statement.erase))
  | externalDeclarations : Paired K .externalDeclarations .externalDeclarations
      (Alike (List.map ExternalDeclaration.erase))

/-! ## Agreement of scripts -/

/-- What is known of both parsers while a rule is carried out. -/
structure Stand where
  /-- A token has been taken since the rule was begun. -/
  behind : Bool
  /-- The kind of the next token, where it is known. -/
  facing : Option TokenKind
  /-- Whether a token had been taken when the outstanding mark was set, if there is one. -/
  saved : Option Bool

namespace Stand

def start : Stand :=
  { behind := false, facing := none, saved := none }

def face (x : Stand) (kind : TokenKind) : Stand :=
  { x with facing := some kind }

/-- After a token of the kind was taken.  The end of the text is not used up. -/
def take (x : Stand) (kind : TokenKind) : Stand :=
  { x with behind := x.behind || kind ≠ .endOfFile, facing := none }

/-- After the table has changed, so that a word may be classified otherwise. -/
def forget (x : Stand) : Stand :=
  { x with facing := none }

end Stand

namespace Script

variable {K : Correspondence} {α β γ δ : Type}

/-- The scripts make the same requests and corresponding calls as long as the answers correspond,
and end in the same way, with values as `Q` says. -/
inductive Agree (K : Correspondence) {α β : Type} :
    Stand → Script α → Script β → (α → β → Stand → Prop) → Prop
  | done {x : Stand} {a : α} {a' : β} {Q : α → β → Stand → Prop} : Q a a' x →
      Agree K x (.done a) (.done a') Q
  | fail {x : Stand} {e e' : ParseError} {Q : α → β → Stand → Prop} : K.Refusals e e' →
      Agree K x (.fail e) (.fail e') Q
  | peek {x : Stand} {next : Token → Script α} {next' : Token → Script β}
      {Q : α → β → Stand → Prop} :
      (∀ token token', K.Tokens token token' →
        Agree K (x.face token.kind) (next token) (next' token') Q) →
      Agree K x (.request (.peek 0) next) (.request (.peek 0) next') Q
  | peekNth {x : Stand} {n : Nat} {next : Token → Script α} {next' : Token → Script β}
      {Q : α → β → Stand → Prop} :
      (∀ token token', K.Tokens token token' → Agree K x (next token) (next' token') Q) →
      Agree K x (.request (.peek n) next) (.request (.peek n) next') Q
  | advance {x : Stand} {next : Token → Script α} {next' : Token → Script β}
      {Q : α → β → Stand → Prop} :
      (∀ token token', K.Tokens token token' → (∀ kind ∈ x.facing, token.kind = kind) →
        Agree K (x.take token.kind) (next token) (next' token') Q) →
      Agree K x (.request .advance next) (.request .advance next') Q
  | mark {x : Stand} {next : Mark → Script α} {next' : Mark → Script β}
      {Q : α → β → Stand → Prop} : x.saved = none →
      (∀ m, Agree K { x with saved := some x.behind } (next m) (next' m) Q) →
      Agree K x (.request .mark next) (.request .mark next') Q
  | reset {x : Stand} {m m' : Mark} {behind : Bool} {next : Unit → Script α}
      {next' : Unit → Script β} {Q : α → β → Stand → Prop} : x.saved = some behind →
      Agree K { behind := behind, facing := none, saved := none } (next ()) (next' ()) Q →
      Agree K x (.request (.reset m) next) (.request (.reset m') next') Q
  | release {x : Stand} {m m' : Mark} {next : Unit → Script α} {next' : Unit → Script β}
      {Q : α → β → Stand → Prop} :
      Agree K { x with saved := none } (next ()) (next' ()) Q →
      Agree K x (.request (.release m) next) (.request (.release m') next') Q
  | enter {x : Stand} {kind : ScopeKind} {next : Unit → Script α} {next' : Unit → Script β}
      {Q : α → β → Stand → Prop} : Agree K x.forget (next ()) (next' ()) Q →
      Agree K x (.request (.enter kind) next) (.request (.enter kind) next') Q
  | leave {x : Stand} {p p' : Position} {next : Unit → Script α} {next' : Unit → Script β}
      {Q : α → β → Stand → Prop} : Agree K x.forget (next ()) (next' ()) Q →
      Agree K x (.request (.leave p) next) (.request (.leave p') next') Q
  | declare {x : Stand} {name : String} {meaning meaning' : Meaning} {next : Unit → Script α}
      {next' : Unit → Script β} {Q : α → β → Stand → Prop} : Alike Meaning.erase meaning meaning' →
      Agree K x.forget (next ()) (next' ()) Q →
      Agree K x (.request (.declare name meaning) next) (.request (.declare name meaning') next') Q
  | declareEnumerator {x : Stand} {name : String} {next : Unit → Script α}
      {next' : Unit → Script β} {Q : α → β → Stand → Prop} :
      Agree K x.forget (next ()) (next' ()) Q →
      Agree K x (.request (.declareEnumerator name) next)
        (.request (.declareEnumerator name) next') Q
  | call {x : Stand} {f f' : Nonterminal} {R : f.Result → f'.Result → Prop}
      {next : f.Result → Script α} {next' : f'.Result → Script β} {Q : α → β → Stand → Prop} :
      f.Paired K f' R → x.behind = true → x.saved = none →
      (∀ a a', R a a' → Agree K x.forget (next a) (next' a') Q) →
      Agree K x (.call f next) (.call f' next') Q

theorem Agree.bind {x : Stand} {prog : Script α} {prog' : Script β} {next : α → Script γ}
    {next' : β → Script δ} {Q : α → β → Stand → Prop} {Q' : γ → δ → Stand → Prop}
    (h : Agree K x prog prog' Q)
    (hnext : ∀ a a' y, Q a a' y → Agree K y (next a) (next' a') Q') :
    Agree K x (prog >>= next) (prog' >>= next') Q' := by
  change Agree K x (prog.bind next) (prog'.bind next') Q'
  induction h with
  | done h => exact hnext _ _ _ h
  | fail h => exact .fail h
  | peek _ ih => exact .peek fun token token' h => ih token token' h hnext
  | peekNth _ ih => exact .peekNth fun token token' h => ih token token' h hnext
  | advance _ ih => exact .advance fun token token' h hfacing => ih token token' h hfacing hnext
  | mark hsaved _ ih => exact .mark hsaved fun m => ih m hnext
  | reset hsaved _ ih => exact .reset hsaved (ih hnext)
  | release _ ih => exact .release (ih hnext)
  | enter _ ih => exact .enter (ih hnext)
  | leave _ ih => exact .leave (ih hnext)
  | declare hmeaning _ ih => exact .declare hmeaning (ih hnext)
  | declareEnumerator _ ih => exact .declareEnumerator (ih hnext)
  | call hpaired hbehind hsaved _ ih =>
      exact .call hpaired hbehind hsaved fun a a' h => ih a a' h hnext

theorem Agree.mono {x : Stand} {prog : Script α} {prog' : Script β}
    {Q Q' : α → β → Stand → Prop} (h : Agree K x prog prog' Q)
    (hQ : ∀ a a' y, Q a a' y → Q' a a' y) : Agree K x prog prog' Q' := by
  have hbind : Agree K x (prog >>= .done) (prog' >>= .done) Q' :=
    h.bind fun a a' y hy => .done (hQ a a' y hy)
  change Agree K x (prog.bind .done) (prog'.bind .done) Q' at hbind
  rwa [bind_done, bind_done] at hbind

/-! ## Scripts of the grammar -/

/-- The scripts agree where no mark is outstanding and leave none.  If `guarded`, a token has to have
been taken before; if `sinks`, one has been taken afterwards. -/
def Sync (K : Correspondence) (guarded : Bool) (prog : Script α) (prog' : Script β)
    (R : α → β → Prop) (sinks : Bool) : Prop :=
  ∀ x : Stand, x.saved = none → (guarded = true → x.behind = true) →
    Agree K x prog prog' fun a a' y =>
      R a a' ∧ y.saved = none ∧ (x.behind = true ∨ sinks = true → y.behind = true)

/-- As `Sync`, where the next token has been looked at and is of the kind. -/
def SyncAt (K : Correspondence) (kind : TokenKind) (guarded : Bool) (prog : Script α)
    (prog' : Script β) (R : α → β → Prop) (sinks : Bool) : Prop :=
  ∀ x : Stand, x.saved = none → x.facing = some kind → (guarded = true → x.behind = true) →
    Agree K x prog prog' fun a a' y =>
      R a a' ∧ y.saved = none ∧ (x.behind = true ∨ sinks = true → y.behind = true)

/-- As `Sync`, where the value tells whether a token has been taken. -/
def SyncIf (K : Correspondence) (prog : Script α) (prog' : Script β) (R : α → β → Prop)
    (sinks : α → Bool) : Prop :=
  ∀ x : Stand, x.saved = none →
    Agree K x prog prog' fun a a' y =>
      R a a' ∧ y.saved = none ∧ (x.behind = true ∨ sinks a = true → y.behind = true)

/-- Behind a script that takes a token, rules may be called. -/
theorem Agree.behind {sinks : Bool} {x : Stand} {prog : Script α} {prog' : Script β}
    {next : α → Script γ} {next' : β → Script δ} {R : α → β → Prop} {R' : γ → δ → Prop}
    (h : Agree K x prog prog' fun a a' y =>
      R a a' ∧ y.saved = none ∧ (x.behind = true ∨ true = true → y.behind = true))
    (hnext : ∀ a a', R a a' → Sync K true (next a) (next' a') R' false) :
    Agree K x (prog >>= next) (prog' >>= next') fun c c' z =>
      R' c c' ∧ z.saved = none ∧ (x.behind = true ∨ sinks = true → z.behind = true) := by
  refine h.bind ?_
  rintro a a' y ⟨ha, hy, hbehind⟩
  have htaken : y.behind = true := hbehind (Or.inr rfl)
  refine (hnext a a' ha y hy fun _ => htaken).mono ?_
  rintro c c' z ⟨hc, hz, hend⟩
  exact ⟨hc, hz, fun _ => hend (Or.inl htaken)⟩

namespace Sync

variable {guarded sinks : Bool} {prog : Script α} {prog' : Script β}
  {next : α → Script γ} {next' : β → Script δ} {R : α → β → Prop} {R' : γ → δ → Prop}
  {kind : TokenKind}

theorem bind (h : Sync K guarded prog prog' R false)
    (hnext : ∀ a a', R a a' → Sync K guarded (next a) (next' a') R' sinks) :
    Sync K guarded (prog >>= next) (prog' >>= next') R' sinks := by
  intro x hsaved hguard
  refine (h x hsaved hguard).bind ?_
  rintro a a' y ⟨ha, hy, hbehind⟩
  refine (hnext a a' ha y hy fun hg => hbehind (Or.inl (hguard hg))).mono ?_
  rintro c c' z ⟨hc, hz, hend⟩
  exact ⟨hc, hz, fun hx => hend (hx.imp_left fun h => hbehind (Or.inl h))⟩

theorem behind (h : Sync K guarded prog prog' R true)
    (hnext : ∀ a a', R a a' → Sync K true (next a) (next' a') R' false) :
    Sync K guarded (prog >>= next) (prog' >>= next') R' sinks :=
  fun x hsaved hguard => (h x hsaved hguard).behind hnext

theorem weaken (h : Sync K guarded prog prog' R sinks) : Sync K guarded prog prog' R false :=
  fun x hsaved hguard => (h x hsaved hguard).mono fun _ _ _ hy =>
    ⟨hy.1, hy.2.1, fun hx => hy.2.2 (Or.inl (hx.elim id nofun))⟩

theorem at_ (h : Sync K guarded prog prog' R sinks) : SyncAt K kind guarded prog prog' R sinks :=
  fun x hsaved _ hguard => h x hsaved hguard

theorem pure {a : α} {a' : β} (h : R a a') :
    Sync K guarded (Pure.pure a) (Pure.pure a') R false :=
  fun _ hsaved _ => .done ⟨h, hsaved, fun hx => hx.elim id nofun⟩

/-! ### Failures -/

theorem fail {e e' : ParseError} (h : K.Refusals e e') :
    Sync K guarded (Script.fail e : Script α) (Script.fail e' : Script β) R sinks :=
  fun _ _ _ => .fail h

theorem refuse {token token' : Token} (h : K.positions token.position token'.position)
    (fault : GrammarFault) :
    Sync K guarded (Script.refuse token fault : Script α) (Script.refuse token' fault : Script β)
      R sinks :=
  fail ⟨⟨fault, rfl⟩, rfl, h⟩

/-! ### Requests -/

theorem advance : Sync K guarded Script.advance Script.advance K.Tokens false :=
  fun x hsaved _ => .advance fun token token' h _ =>
    .done ⟨h, hsaved, fun hx => by simp [Stand.take, hx.elim id nofun]⟩

/-- What follows a look at the next token goes on from tokens of one kind. -/
theorem peek {next : Token → Script γ} {next' : Token → Script δ}
    (h : ∀ kind p p', K.positions p p' → kind.lexeme.Readable →
      SyncAt K kind guarded (next ⟨kind, p⟩) (next' ⟨kind, p'⟩) R' sinks) :
    Sync K guarded (Script.peek >>= next) (Script.peek >>= next') R' sinks := by
  intro x hsaved hguard
  refine .peek ?_
  rintro ⟨kind, p⟩ ⟨kind', p'⟩ ⟨hkind, hp, hread⟩
  obtain rfl : kind = kind' := hkind.symm
  exact h kind p p' hp hread (x.face kind) hsaved rfl hguard

theorem peekNth (n : Nat) {next : Token → Script γ} {next' : Token → Script δ}
    (h : ∀ kind p p', Sync K guarded (next ⟨kind, p⟩) (next' ⟨kind, p'⟩) R' sinks) :
    Sync K guarded (Script.peekNth n >>= next) (Script.peekNth n >>= next') R' sinks := by
  intro x hsaved hguard
  refine .peekNth ?_
  rintro ⟨kind, p⟩ ⟨kind', p'⟩ ⟨hkind, -, -⟩
  obtain rfl : kind = kind' := hkind.symm
  exact h kind p p' x hsaved hguard

theorem enter (kind : ScopeKind) :
    Sync K guarded (Script.enter kind) (Script.enter kind) (fun _ _ => True) false :=
  fun _ hsaved _ => .enter (.done ⟨trivial, hsaved, fun hx => hx.elim id nofun⟩)

theorem leave (p p' : Position) :
    Sync K guarded (Script.leave p) (Script.leave p') (fun _ _ => True) false :=
  fun _ hsaved _ => .leave (.done ⟨trivial, hsaved, fun hx => hx.elim id nofun⟩)

theorem declare (name : String) {meaning meaning' : Meaning}
    (h : Alike Meaning.erase meaning meaning') :
    Sync K guarded (Script.declare name meaning) (Script.declare name meaning')
      (fun _ _ => True) false :=
  fun _ hsaved _ => .declare h (.done ⟨trivial, hsaved, fun hx => hx.elim id nofun⟩)

theorem declareEnumerator (name : String) :
    Sync K guarded (Script.declareEnumerator name) (Script.declareEnumerator name)
      (fun _ _ => True) false :=
  fun _ hsaved _ => .declareEnumerator (.done ⟨trivial, hsaved, fun hx => hx.elim id nofun⟩)

theorem rule {f f' : Nonterminal} {R : f.Result → f'.Result → Prop} (h : f.Paired K f' R) :
    Sync K true (Script.rule f) (Script.rule f') R sinks :=
  fun _ hsaved hguard => .call h (hguard rfl) hsaved fun _ _ ha =>
    .done ⟨ha, hsaved, fun _ => hguard rfl⟩

end Sync

namespace SyncAt

variable {guarded sinks : Bool} {kind : TokenKind} {R : γ → δ → Prop}

/-- A token that has been looked at is taken. -/
theorem advance {next : Token → Script γ} {next' : Token → Script δ} (hkind : kind ≠ .endOfFile)
    (h : ∀ p p', K.positions p p' → Sync K true (next ⟨kind, p⟩) (next' ⟨kind, p'⟩) R false) :
    SyncAt K kind guarded (Script.advance >>= next) (Script.advance >>= next') R sinks := by
  intro x hsaved hfacing hguard
  refine .advance ?_
  rintro ⟨kind₁, p⟩ ⟨kind₂, p'⟩ ⟨hsame, hp, hread⟩ hnext
  obtain rfl : kind₂ = kind₁ := hsame
  obtain rfl : kind₂ = kind := hnext kind hfacing
  refine (h p p' hp (x.take kind₂) hsaved fun _ => by simp [Stand.take, hkind]).mono ?_
  rintro c c' y ⟨hc, hy, hend⟩
  exact ⟨hc, hy, fun _ => hend (Or.inl (by simp [Stand.take, hkind]))⟩

theorem behind {prog : Script α} {prog' : Script β} {next : α → Script γ} {next' : β → Script δ}
    {R₁ : α → β → Prop} (h : SyncAt K kind guarded prog prog' R₁ true)
    (hnext : ∀ a a', R₁ a a' → Sync K true (next a) (next' a') R false) :
    SyncAt K kind guarded (prog >>= next) (prog' >>= next') R sinks :=
  fun x hsaved hfacing hguard => (h x hsaved hfacing hguard).behind hnext

/-- A script that takes the next token does so whatever its value tells. -/
theorem taken {prog : Script γ} {prog' : Script δ} (h : SyncAt K kind false prog prog' R true)
    {x : Stand} (hsaved : x.saved = none) (tells : γ → Bool) :
    Agree K (x.face kind) prog prog' fun a a' y =>
      R a a' ∧ y.saved = none ∧ (x.behind = true ∨ tells a = true → y.behind = true) :=
  (h (x.face kind) hsaved rfl nofun).mono fun _ _ _ hy =>
    ⟨hy.1, hy.2.1, fun _ => hy.2.2 (Or.inr rfl)⟩

end SyncAt

namespace SyncIf

variable {guarded sinks : Bool} {prog : Script α} {prog' : Script β}
  {next : α → Script γ} {next' : β → Script δ} {R : α → β → Prop} {R' : γ → δ → Prop}
  {taken : α → Bool}

theorem bind (h : SyncIf K prog prog' R taken)
    (htaken : ∀ a a', R a a' → taken a = true → Sync K true (next a) (next' a') R' false)
    (hnot : ∀ a a', R a a' → taken a = false → Sync K guarded (next a) (next' a') R' sinks) :
    Sync K guarded (prog >>= next) (prog' >>= next') R' sinks := by
  intro x hsaved hguard
  refine (h x hsaved).bind ?_
  rintro a a' y ⟨ha, hy, hbehind⟩
  cases htook : taken a with
  | true =>
      have hyes : y.behind = true := hbehind (Or.inr htook)
      refine (htaken a a' ha htook y hy fun _ => hyes).mono ?_
      rintro c c' z ⟨hc, hz, hend⟩
      exact ⟨hc, hz, fun _ => hend (Or.inl hyes)⟩
  | false =>
      refine (hnot a a' ha htook y hy fun hg => hbehind (Or.inl (hguard hg))).mono ?_
      rintro c c' z ⟨hc, hz, hend⟩
      exact ⟨hc, hz, fun hx => hend (hx.imp_left fun h => hbehind (Or.inl h))⟩

/-- A script that takes a token, or not, and says so at its end. -/
theorem weaken (h : SyncIf K prog prog' R taken) : Sync K guarded prog prog' R false :=
  fun x hsaved _ => (h x hsaved).mono fun _ _ _ hy =>
    ⟨hy.1, hy.2.1, fun hx => hy.2.2 (Or.inl (hx.elim id nofun))⟩

end SyncIf

end Script

end CSyntax
