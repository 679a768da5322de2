import CSyntax.Proofs.Span.Ledger
import CSyntax.Proofs.Tree.Ordered

/-!
# Spanning — which stretch of the text a rule reads

A rule is begun at an offset and done at another one.  What it gives stands in the stretch between
them, and a rule that it calls on the way is begun further on than itself.  The contract `spanning`
says so of sites:

* `Nonterminal.StartsAt` — what the rule was begun with stands before the offset;
* `Nonterminal.Covers` — what the rule gives stands in the stretch, in order;
* `Script.Spans` — that a script begun at an offset reads on from there, with a lemma for each step
  over tokens, so that the offsets of a script are compared by arithmetic alone.
-/

namespace CSyntax

/-! ## What stands in a stretch -/

/-- The parameters stand in the stretch in order. -/
structure Parameter.Stand (real : Position → Prop) (a b : Nat) (list : List Parameter) : Prop where
  types : ∀ p ∈ list, p.type.Everywhere (placed real)
  real : ∀ p ∈ list, real p.position
  ascend : Position.Ascend a b (list.map (·.position))

/-- The wrapping is of what stands in the stretch. -/
inductive TypeModifier.Stands (real : Position → Prop) (a b : Nat) : TypeModifier → Prop
  | pointer : Stands real a b .pointer
  | array {size : Option Expr} : (∀ e ∈ size, e.Everywhere (placed real) .operand) →
      Stands real a b (.array size)
  | function {parameters : List Parameter} {variadic : Bool} :
      Parameter.Stand real a b parameters → Stands real a b (.function parameters variadic)

structure Declarator.Stands (real : Position → Prop) (a b : Nat) (d : Declarator) : Prop where
  name : ∀ n ∈ d.name, n.2.Within a b ∧ real n.2
  modifiers : ∀ m ∈ d.modifiers, m.Stands real a b

/-- The declarations stand in the stretch in order, with their initial values. -/
structure Declaration.Stand (real : Position → Prop) (a b : Nat) (list : List Declaration) :
    Prop where
  everywhere : ∀ d ∈ list, d.Everywhere (placed real)
  real : ∀ d ∈ list, real d.position
  ascend : Position.Ascend a b (list.flatMap (·.places))

variable {real : Position → Prop} {a b c d : Nat}

theorem Parameter.Stand.mono {list : List Parameter} (h : Parameter.Stand real a b list)
    (hfrom : c ≤ a) (hto : b ≤ d) : Parameter.Stand real c d list :=
  { h with ascend := h.ascend.mono hfrom hto }

theorem TypeModifier.Stands.mono {m : TypeModifier} (h : m.Stands real a b) (hfrom : c ≤ a)
    (hto : b ≤ d) : m.Stands real c d := by
  cases h with
  | pointer => exact .pointer
  | array hsize => exact .array hsize
  | function hlist => exact .function (hlist.mono hfrom hto)

theorem TypeModifier.Stands.everywhere {m : TypeModifier} (h : m.Stands real a b) :
    m.Everywhere (placed real) := by
  cases h with
  | pointer => exact .pointer
  | array hsize => exact .array hsize
  | function hlist => exact .function hlist.types

namespace Nonterminal

/-- What the rule was begun with stands before the offset. -/
def StartsAt (real : Position → Prop) (a : Nat) : Nonterminal → Prop
  | .infixTail _ left => left.Everywhere (placed real) .operand ∧ left.position.offset < a
  | .postfixTail operand => operand.Everywhere (placed real) .operand ∧ operand.position.offset < a
  | .specifierTail tally => ∀ type ∈ tally.other, type.Everywhere (placed real)
  | .memberDeclarators specifiers => specifiers.base.Everywhere (placed real)
  | .initDeclarators specifiers => specifiers.base.Everywhere (placed real)
  | _ => True

/-- What the rule gives stands in the stretch, in order. -/
def Covers (real : Position → Prop) (a b : Nat) : (f : Nonterminal) → f.Result → Prop
  | .expression _, value => value.Everywhere (placed real) .operand ∧ value.position.Within a b
  | .infixTail _ left, value =>
      value.Everywhere (placed real) .operand ∧ value.position = left.position
  | .postfixTail operand, value =>
      value.Everywhere (placed real) .operand ∧ value.position = operand.position
  | .arguments, list => (∀ e ∈ list, e.Everywhere (placed real) .operand) ∧
      Position.Ascend a b (list.map (·.position))
  | .adjacentStrings, _ => True
  | .typeName, type => type.Everywhere (placed real)
  | .specifierTail tally, tally' => (∀ type ∈ tally'.other, type.Everywhere (placed real)) ∧
      (b = a → tally' = tally)
  | .members, list => ∀ member ∈ list, member.type.Everywhere (placed real)
  | .memberDeclarators _, list => ∀ member ∈ list, member.type.Everywhere (placed real)
  | .enumerators, list => ∀ e ∈ list, ∀ value ∈ e.value, value.Everywhere (placed real) .operand
  | .pointerTail, _ => True
  | .declarator _, d => d.Stands real a b
  | .suffixes, modifiers => ∀ m ∈ modifiers, m.Stands real a b
  | .parameters, list => Parameter.Stand real a b list.1
  | .initializerItems, items => (∀ e ∈ items, e.Everywhere (placed real) .initial) ∧
      Position.Ascend a b (items.map (·.position))
  | .initDeclarators _, list => Declaration.Stand real a b list
  | .statement, s => s.Everywhere (placed real) ∧ s.position.Within a b
  | .blockItems, items => (∀ s ∈ items, s.Everywhere (placed real)) ∧
      Position.Ascend a b (items.map (·.position))
  | .externalDeclarations, list => (∀ d ∈ list, d.Everywhere (placed real)) ∧
      Position.Ascend a b (list.map (·.position))

end Nonterminal

/-! ## The contract -/

/-- No mark is outstanding, and the end of the text has not been taken. -/
structure Site.Rests (x : Site) : Prop where
  saved : x.saved = none
  ended : x.ended = false

/-- A token that is not the end of the text leads further on. -/
theorem Site.Rests.advance {o : Outlook} {x y : Site} {token : Token} (h : x.Rests)
    (hstep : Site.Step o .advance x token y) (hkind : token.kind ≠ .endOfFile) :
    y.Rests ∧ x.here < y.here ∧ y.here ≤ o.stop.offset := by
  obtain ⟨-, -, hstop, hsaved, -, hmoved⟩ := hstep
  obtain ⟨hlt, hended⟩ := hmoved hkind
  exact ⟨⟨by rw [hsaved, h.saved]; rfl, hended.trans h.ended⟩, hlt, hstop⟩

/-- Rules are begun from the offset `N` on, and read on from where they are begun. -/
def spanning (o : Outlook) (N : Nat) : Contract Site where
  may := Site.May
  step := Site.Step o
  pre f x := x.Rests ∧ N ≤ x.here ∧ x.here ≤ o.stop.offset ∧ f.StartsAt o.Real x.here
  post f x result y _ := y.Rests ∧ x.here ≤ y.here ∧ y.here ≤ o.stop.offset ∧
    f.Covers o.Real x.here y.here result

/-- The token stands at the offset, and is a lexeme unless the text ends there. -/
structure Outlook.Shows (o : Outlook) (a : Nat) (token : Token) : Prop where
  offset : token.position.offset = a
  real : a < o.stop.offset → o.Real token.position

/-- The token stands in any stretch that begins at it. -/
theorem Outlook.Shows.within {o : Outlook} {token : Token} (h : o.Shows a token) (hab : a < b) :
    token.position.Within a b :=
  ⟨Nat.le_of_eq h.offset.symm, h.offset ▸ hab⟩

namespace Script

variable {α β : Type} {o : Outlook} {N : Nat}

/-- The script, begun at rest at the offset, comes to rest at an offset further on, and gives what is
said with this. -/
def Spans (o : Outlook) (N a : Nat) (prog : Script α) (P : α → Nat → Prop) : Prop :=
  ∀ x : Site, x.Rests → x.here = a → a ≤ o.stop.offset →
    prog.Meets (spanning o N) x fun value y _ =>
      y.Rests ∧ a ≤ y.here ∧ y.here ≤ o.stop.offset ∧ P value y.here

/-- The same where the next token is known. -/
def SpansFrom (o : Outlook) (N a : Nat) (token : Token) (prog : Script α) (P : α → Nat → Prop) :
    Prop :=
  ∀ x : Site, x.Rests → x.here = a → a ≤ o.stop.offset → x.ahead 0 = some token →
    prog.Meets (spanning o N) x fun value y _ =>
      y.Rests ∧ a ≤ y.here ∧ y.here ≤ o.stop.offset ∧ P value y.here

namespace Spans

variable {prog : Script α} {P : α → Nat → Prop} {Q : β → Nat → Prop} {token : Token}

theorem known (h : prog.Spans o N a P) : prog.SpansFrom o N a token P :=
  fun x hrests hhere hstop _ => h x hrests hhere hstop

theorem bind {next : α → Script β} (h : prog.Spans o N a P)
    (hnext : ∀ value b, a ≤ b → b ≤ o.stop.offset → P value b → (next value).Spans o N b Q) :
    (prog >>= next).Spans o N a Q := by
  intro x hrests hhere hstop
  refine Meets.bind (h x hrests hhere hstop) ?_
  rintro value y - ⟨hy, hab, hby, hP⟩
  refine (hnext value y.here hab hby hP y hy rfl hby).mono ?_
  rintro b z - ⟨hz, hle, hzstop, hQ⟩
  exact ⟨hz, Nat.le_trans hab hle, hzstop, hQ⟩

theorem weaken {P' : α → Nat → Prop} (h : prog.Spans o N a P)
    (hP : ∀ value b, a ≤ b → P value b → P' value b) : prog.Spans o N a P' := by
  intro x hrests hhere hstop
  refine (h x hrests hhere hstop).mono ?_
  rintro value y - ⟨hy, hab, hby, hvalue⟩
  exact ⟨hy, hab, hby, hP value y.here hab hvalue⟩

theorem pure {value : α} (h : P value a) : (Pure.pure value : Script α).Spans o N a P := by
  rintro x hrests rfl hstop
  exact ⟨hrests, Nat.le_refl _, hstop, h⟩

theorem fail {error : ParseError} : (Script.fail error : Script α).Spans o N a P :=
  fun _ _ _ _ => trivial

theorem refuse {fault : GrammarFault} : (Script.refuse token fault : Script α).Spans o N a P :=
  fun _ _ _ _ => trivial

theorem contradict {position : Position} {fault : InternalFault} :
    (Script.contradict position fault : Script α).Spans o N a P :=
  fun _ _ _ _ => trivial

theorem contradictAt {fault : InternalFault} :
    (Script.contradictAt token fault : Script α).Spans o N a P :=
  fun _ _ _ _ => trivial

theorem rule {f : Nonterminal} {P : f.Result → Nat → Prop} (hN : N ≤ a) (hf : f.StartsAt o.Real a)
    (h : ∀ result b, a ≤ b → f.Covers o.Real a b result → P result b) :
    (Script.rule f).Spans o N a P := by
  rintro x hrests rfl hstop
  refine ⟨⟨hrests, hN, hstop, hf⟩, ?_⟩
  rintro result y - ⟨hy, hab, hby, hcovers⟩
  exact ⟨hy, hab, hby, h result y.here hab hcovers⟩

/-- A rule, with what it gives. -/
theorem call {f : Nonterminal} {next : f.Result → Script β} (hN : N ≤ a) (hf : f.StartsAt o.Real a)
    (hnext : ∀ result b, a ≤ b → b ≤ o.stop.offset → f.Covers o.Real a b result →
      (next result).Spans o N b Q) : (Script.rule f >>= next).Spans o N a Q :=
  (rule (P := fun result b => f.Covers o.Real a b result) hN hf fun _ _ _ h => h).bind hnext

/-! ### Single tokens -/

theorem peek {next : Token → Script β}
    (hnext : ∀ token, o.Shows a token → (next token).SpansFrom o N a token Q) :
    (Script.peek >>= next).Spans o N a Q := by
  rintro x hrests rfl hstop
  refine ⟨trivial, ?_⟩
  rintro token y ⟨rfl, hahead, hshows⟩
  exact hnext token ⟨(hshows rfl).1, (hshows rfl).2⟩ y hrests rfl hstop hahead

theorem here {next : Position → Script β}
    (hnext : ∀ token, o.Shows a token → (next token.position).Spans o N a Q) :
    (Script.here >>= next).Spans o N a Q :=
  peek fun token hshows => (hnext token hshows).known

end Spans

namespace SpansFrom

variable {prog : Script α} {P : α → Nat → Prop} {Q : β → Nat → Prop} {token : Token}

theorem bind {next : α → Script β} (h : prog.SpansFrom o N a token P)
    (hnext : ∀ value b, a ≤ b → b ≤ o.stop.offset → P value b → (next value).Spans o N b Q) :
    (prog >>= next).SpansFrom o N a token Q := by
  intro x hrests hhere hstop hahead
  refine Meets.bind (h x hrests hhere hstop hahead) ?_
  rintro value y - ⟨hy, hab, hby, hP⟩
  refine (hnext value y.here hab hby hP y hy rfl hby).mono ?_
  rintro b z - ⟨hz, hle, hzstop, hQ⟩
  exact ⟨hz, Nat.le_trans hab hle, hzstop, hQ⟩

/-- A token that is not the end of the text is taken. -/
theorem advance {next : Token → Script β} (hkind : token.kind ≠ .endOfFile)
    (hnext : ∀ b, a < b → b ≤ o.stop.offset → (next token).Spans o N b Q) :
    (Script.advance >>= next).SpansFrom o N a token Q := by
  rintro x hrests rfl hstop hahead
  refine ⟨trivial, ?_⟩
  intro token' y hstep
  obtain rfl : token = token' := Option.some.inj (hahead.symm.trans hstep.1)
  obtain ⟨hy, hlt, hby⟩ := hrests.advance hstep hkind
  refine (hnext y.here hlt hby y hy rfl hby).mono ?_
  rintro b z - ⟨hz, hle, hzstop, hQ⟩
  exact ⟨hz, by omega, hzstop, hQ⟩

/-- Looking at the token again. -/
theorem peekNth {n : Nat} {next : Token → Script β}
    (hnext : ∀ second, (next second).SpansFrom o N a token Q) :
    (Script.peekNth n >>= next).SpansFrom o N a token Q := by
  rintro x hrests rfl hstop hahead
  refine ⟨trivial, ?_⟩
  rintro second y ⟨rfl, -⟩
  exact hnext second y hrests rfl hstop hahead

theorem refuse {fault : GrammarFault} :
    (Script.refuse token fault : Script α).SpansFrom o N a token P :=
  Spans.refuse.known

end SpansFrom

namespace Spans

variable {P : α → Nat → Prop} {Q : β → Nat → Prop}

theorem nextIs {kind : TokenKind} {next : Bool → Script β}
    (hyes : ∀ token, o.Shows a token → token.kind = kind → (next true).SpansFrom o N a token Q)
    (hno : (next false).Spans o N a Q) : (Script.nextIs kind >>= next).Spans o N a Q := by
  refine peek fun token hshows => ?_
  by_cases hkind : token.kind = kind
  · simpa [hkind] using hyes token hshows hkind
  · have hno' : (next false).SpansFrom o N a token Q := hno.known
    simpa [hkind] using hno'

theorem accept {kind : TokenKind} {next : Bool → Script β} (hkind : kind ≠ .endOfFile)
    (hyes : ∀ b, a < b → b ≤ o.stop.offset → (next true).Spans o N b Q)
    (hno : (next false).Spans o N a Q) : (Script.accept kind >>= next).Spans o N a Q := by
  have h : (Script.accept kind).Spans o N a fun found b =>
      (found = true ∧ a < b) ∨ (found = false ∧ b = a) := by
    refine nextIs (fun token _ htoken => ?_) ?_
    · exact SpansFrom.advance (htoken ▸ hkind) fun b hab _ => pure (Or.inl ⟨rfl, hab⟩)
    · exact pure (Or.inr ⟨rfl, rfl⟩)
  refine h.bind ?_
  rintro found b - hby (⟨rfl, hlt⟩ | ⟨rfl, rfl⟩)
  · exact hyes b hlt hby
  · exact hno

theorem expect {kind : TokenKind} {next : Token → Script β} (hkind : kind ≠ .endOfFile)
    (hnext : ∀ token b, a < b → b ≤ o.stop.offset → (next token).Spans o N b Q) :
    (Script.expect kind >>= next).Spans o N a Q := by
  have h : (Script.expect kind).Spans o N a fun _ b => a < b := by
    refine peek fun token _ => ?_
    split
    · rename_i htoken
      have htaken : (Script.advance >>= Pure.pure).SpansFrom o N a token fun _ b => a < b :=
        .advance (htoken ▸ hkind) fun b hab _ => pure hab
      rwa [bind_pure] at htaken
    · exact SpansFrom.refuse
  exact h.bind fun token b _ hby hlt => hnext token b hlt hby

theorem expectWord {next : String → Script β}
    (hnext : ∀ name b, a < b → b ≤ o.stop.offset → (next name).Spans o N b Q) :
    (Script.expectWord >>= next).Spans o N a Q := by
  have h : Script.expectWord.Spans o N a fun _ b => a < b := by
    rintro x hrests rfl hstop
    refine ⟨trivial, ?_⟩
    intro token y hstep
    have hword : token.kind ≠ .endOfFile → y.Rests ∧ x.here ≤ y.here ∧
        y.here ≤ o.stop.offset ∧ x.here < y.here := by
      intro hkind
      obtain ⟨hy, hlt, hby⟩ := hrests.advance hstep hkind
      exact ⟨hy, Nat.le_of_lt hlt, hby, hlt⟩
    dsimp only [Script.bind]
    split
    · rename_i hkind
      exact hword (by simp [hkind])
    · rename_i hkind
      exact hword (by simp [hkind])
    · trivial
  exact h.bind fun name b _ hby hlt => hnext name b hlt hby

theorem acceptWord {next : Option String → Script β}
    (hnext : ∀ name b, a ≤ b → b ≤ o.stop.offset → (next name).Spans o N b Q) :
    (Script.acceptWord >>= next).Spans o N a Q := by
  have h : Script.acceptWord.Spans o N a fun _ _ => True := by
    refine peek fun token _ => ?_
    split
    · exact (expectWord fun _ _ _ _ => pure (by trivial)).known
    · exact (expectWord fun _ _ _ _ => pure (by trivial)).known
    · exact (pure (by trivial)).known
  exact h.bind fun name b hab hby _ => hnext name b hab hby

/-! ### The table -/

theorem tabular {r : Request} {next : r.Answer → Script β} (hr : r.isTabular = true)
    (hnext : ∀ answer, (next answer).Spans o N a Q) : (Script.request r next).Spans o N a Q := by
  rintro x hrests rfl hstop
  have hmay : Site.May r x := by cases r <;> trivial
  have hsame : ∀ answer y, Site.Step o r x answer y →
      y.here = x.here ∧ y.saved = x.saved ∧ y.ended = x.ended := by
    intro answer y hstep
    cases r <;> first | exact hstep | cases hr
  refine ⟨hmay, fun answer y hstep => ?_⟩
  obtain ⟨hhere, hsaved, hended⟩ := hsame answer y hstep
  exact hnext answer y ⟨hsaved.trans hrests.saved, hended.trans hrests.ended⟩ hhere hstop

theorem enter {kind : ScopeKind} {next : Unit → Script β} (hnext : (next ()).Spans o N a Q) :
    (Script.enter kind >>= next).Spans o N a Q :=
  tabular rfl fun _ => hnext

theorem leave {position : Position} {next : Unit → Script β} (hnext : (next ()).Spans o N a Q) :
    (Script.leave position >>= next).Spans o N a Q :=
  tabular rfl fun _ => hnext

theorem declare {name : String} {meaning : Meaning} {next : Unit → Script β}
    (hnext : (next ()).Spans o N a Q) : (Script.declare name meaning >>= next).Spans o N a Q :=
  tabular rfl fun _ => hnext

theorem declareEnumerator {name : String} {next : Unit → Script β}
    (hnext : (next ()).Spans o N a Q) :
    (Script.declareEnumerator name >>= next).Spans o N a Q :=
  tabular rfl fun _ => hnext

end Spans

end Script

end CSyntax
