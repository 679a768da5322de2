import CSyntax.Proofs.Run.Inversion

/-!
# Seam — what is read in front of a separator

A declaration ends in a semicolon.  In a list of declarators a comma stands in its place, with other
lexemes behind it, and what was read in front of the semicolon is read in front of the comma just as
well.  This file defines:

* `Seam` — a semicolon with what stands behind it, and what is put in their place;
* `Script.Local` — a script reads the same on both sides if it ends in front of the seam;
* `Script.Stuck` — a script has no success where the semicolon comes next;

and shows how the first of these properties is put together as scripts are.  A script that asks
whether a comma comes next has it only for readings that end before the last lexeme in front of the
seam.  Such a script is followed by one that insists on a closing mark, which the semicolon is not.
-/

namespace CSyntax

/-! ## What is left behind a reading -/

/-- The lexemes ahead, and those that have been taken behind a mark. -/
def View.whole (v : View) : List Piece :=
  v.taken.getD [] ++ v.ahead

theorem View.whole_of_taken {v : View} (h : v.taken = none) : v.whole = v.ahead := by
  rw [whole, h]
  rfl

/-- Lexemes come back only if they have been taken behind a mark. -/
theorem View.whole_perform {r : Request} {answer : r.Answer} {v w : View}
    (h : v.perform r = some (answer, w)) : w.whole <:+ v.whole := by
  cases r with
  | peek n =>
      obtain ⟨token, -, heq⟩ := Option.map_eq_some_iff.1 h
      cases heq
      exact List.suffix_rfl
  | advance =>
      obtain ⟨token, -, heq⟩ := Option.map_eq_some_iff.1 h
      cases heq
      cases htaken : v.taken with
      | none =>
          rw [whole, whole, htaken]
          exact List.tail_suffix _
      | some pieces =>
          rw [whole, whole, htaken]
          have hsame : pieces ++ v.ahead.take 1 ++ v.ahead.tail = pieces ++ v.ahead := by
            rw [List.append_assoc, ← List.drop_one, List.take_append_drop]
          exact ⟨[], hsame⟩
  | mark =>
      cases h
      exact List.suffix_append _ _
  | reset m =>
      cases h
      exact List.suffix_rfl
  | release m =>
      cases h
      exact List.suffix_append _ _
  | leave position =>
      obtain ⟨outer, -, heq⟩ := Option.map_eq_some_iff.1 h
      cases heq
      exact List.suffix_rfl
  | enter _ | declare _ _ | declareEnumerator _ =>
      cases h
      exact List.suffix_rfl

/-- What a script leaves ahead is the end of what was ahead of it. -/
theorem Script.Takes.whole_suffix {α : Type} {prog : Script α} {v w : View} {a : α}
    (h : prog.Takes v a w) : w.whole <:+ v.whole := by
  refine h.induct ?done ?request ?call
  case done => exact fun _ _ => List.suffix_rfl
  case request => exact fun hperform _ ih => ih.trans (View.whole_perform hperform)
  case call => exact fun _ hrule _ ih => ih.trans hrule

/-- A script that leaves no mark takes lexemes off the front. -/
theorem Script.Takes.exists_front {α : Type} {prog : Script α} {v w : View} {a : α}
    (h : prog.Takes v a w) (hv : v.taken = none) (hw : w.taken = none) :
    ∃ front, front ++ w.ahead = v.ahead := by
  have hsuffix := h.whole_suffix
  rwa [View.whole_of_taken hw, View.whole_of_taken hv] at hsuffix

theorem Script.Takes.length_ahead_le {α : Type} {prog : Script α} {v w : View} {a : α}
    (h : prog.Takes v a w) (hv : v.taken = none) : w.ahead.length ≤ v.ahead.length := by
  have hsuffix := h.whole_suffix.length_le
  rw [View.whole_of_taken hv, View.whole, List.length_append] at hsuffix
  omega

/-! ## Seams -/

/-- A semicolon among the lexemes ahead, with what stands behind it, and another separator that is put
in its place, with other lexemes and another ending behind it. -/
structure Seam where
  mark : Piece
  rest : List Piece
  other : Piece
  otherRest : List Piece
  ending : Except ParseError Position
  semicolon : mark.lexeme = .punctuator .semicolon
  separates : other.lexeme = .punctuator .semicolon ∨ other.lexeme = .punctuator .comma

namespace Seam

variable (σ : Seam) {v w : View} {front after : List Piece} {piece : Piece}

/-- The lexemes in front of the semicolon come next. -/
def before (v : View) (front : List Piece) : View :=
  v.facing (front ++ σ.mark :: σ.rest)

/-- The lexemes come next in front of the other separator. -/
def across (v : View) (front : List Piece) : View :=
  { v with ahead := front ++ σ.other :: σ.otherRest, ending := σ.ending }

theorem kind_mark (v : View) : v.kind σ.mark = .punctuator .semicolon := by
  rw [View.kind, σ.semicolon]
  rfl

theorem kind_other (v : View) :
    v.kind σ.other = .punctuator .semicolon ∨ v.kind σ.other = .punctuator .comma :=
  σ.separates.imp (fun h => by rw [View.kind, h]; rfl) fun h => by rw [View.kind, h]; rfl

theorem eq_before (h : w.ahead = after ++ σ.mark :: σ.rest) : w = σ.before w after := by
  rw [before, ← h]
  rfl

/-- Nothing in front of the seam is left where the seam came next. -/
theorem eq_nil_of_suffix (h : after ++ σ.mark :: σ.rest <:+ σ.mark :: σ.rest) : after = [] := by
  have hlength := h.length_le
  rw [List.length_append] at hlength
  exact List.eq_nil_of_length_eq_zero (by omega)

end Seam

namespace Script

variable {α β : Type} {σ : Seam} {depth : Nat} {touches : Bool}

/-- If the script ends in front of the seam, it reads the same in front of the other separator.  It
may leave the separator next only if it `touches` the seam. -/
structure Local (σ : Seam) (depth : Nat) (touches : Bool) (prog : Script α) : Prop where
  unmarked : ∀ {v w : View} {a : α}, v.taken = none →
    prog.read (Parser.readAt depth) v = some (a, w) → w.taken = none
  across : ∀ {v w : View} {front after : List Piece} {a : α}, v.taken = none →
    prog.read (Parser.readAt depth) (σ.before v front) = some (a, w) →
    w.ahead = after ++ σ.mark :: σ.rest → (touches = false → after ≠ []) →
      prog.Takes (σ.across v front) a (σ.across w after)

/-- Where the semicolon comes next the script has no success. -/
def Stuck (σ : Seam) (depth : Nat) (prog : Script α) : Prop :=
  ∀ v : View, v.taken = none → prog.read (Parser.readAt depth) (σ.before v []) = none

variable {prog : Script α} {next : α → Script β} {kind : TokenKind}

/-! ### Scripts without success -/

namespace Stuck

theorem bind (h : prog.Stuck σ depth) : (prog >>= next).Stuck σ depth := by
  intro v hv
  rw [read_bind, h v hv]
  rfl

theorem refuse {token : Token} {fault : GrammarFault} :
    (Script.refuse token fault : Script α).Stuck σ depth :=
  fun _ _ => rfl

theorem peek {next : Token → Script β}
    (h : ∀ p, (next ⟨.punctuator .semicolon, p⟩).Stuck σ depth) :
    (Script.peek >>= next).Stuck σ depth := by
  intro v hv
  have htoken : (σ.before v []).token? 0 = some ⟨.punctuator .semicolon, σ.mark.position⟩ :=
    congrArg (fun kind => some (Token.mk kind σ.mark.position)) (σ.kind_mark v)
  refine Eq.trans ?_ (h σ.mark.position v hv)
  change ((σ.before v []).perform (.peek 0)).bind _ = _
  rw [View.perform, htoken]
  rfl

theorem expect (hkind : kind ≠ .punctuator .semicolon) :
    (Script.expect kind).Stuck σ depth :=
  peek fun p => by
    rw [if_neg hkind.symm]
    exact refuse

theorem accept {next : Bool → Script β} (hkind : kind ≠ .punctuator .semicolon)
    (h : (next false).Stuck σ depth) : (Script.accept kind >>= next).Stuck σ depth := by
  have hpeek : (Script.peek >>= fun token =>
      (if decide (token.kind = kind) = true then Script.advance >>= fun _ => Pure.pure true
        else Pure.pure false) >>= next).Stuck σ depth :=
    peek fun p => by
      rw [if_neg (by simpa using hkind.symm)]
      exact h
  exact hpeek

end Stuck

/-! ### Sequences -/

namespace Local

/-- A script that ends at the seam has to be one that may, unless what follows it goes no further. -/
theorem sequence {ends : Bool} (h : prog.Local σ depth ends)
    (hnext : ∀ a, (next a).Local σ depth touches)
    (hends : ends = true ∨ touches = false ∨ ∀ a, (next a).Stuck σ depth) :
    (prog >>= next).Local σ depth touches where
  unmarked hv hread := by
    obtain ⟨a, u, hprog, hrest⟩ := bind_of_read hread
    exact (hnext a).unmarked (h.unmarked hv hprog) hrest
  across {v w front after b} hv hread hahead hafter := by
    obtain ⟨a, u, hprog, hrest⟩ := bind_of_read hread
    have hu : u.taken = none := h.unmarked (v := σ.before v front) hv hprog
    -- What the first script leaves goes on to the seam, since what the second one leaves does.
    obtain ⟨taken, htaken⟩ := Script.Takes.whole_suffix ⟨depth, hrest⟩
    rw [View.whole_of_taken ((hnext a).unmarked hu hrest), View.whole_of_taken hu, hahead,
      ← List.append_assoc] at htaken
    rw [σ.eq_before htaken.symm] at hrest
    have hbetween : ends = false → taken ++ after ≠ [] := by
      intro hfalse hnil
      rcases hends with htrue | hfalse | hstuck
      · rw [htrue] at hfalse
        cases hfalse
      · exact hafter hfalse (List.append_eq_nil_iff.1 hnil).2
      · rw [hnil, hstuck a u hu] at hrest
        cases hrest
    exact (h.across hv hprog htaken.symm hbetween).bind ((hnext a).across hu hrest hahead hafter)

theorem bind (h : prog.Local σ depth true) (hnext : ∀ a, (next a).Local σ depth touches) :
    (prog >>= next).Local σ depth touches :=
  sequence h hnext (.inl rfl)

/-- What does not touch the seam as a whole does not touch it in between. -/
theorem within {ends : Bool} (h : prog.Local σ depth ends)
    (hnext : ∀ a, (next a).Local σ depth false) : (prog >>= next).Local σ depth false :=
  sequence h hnext (.inr (.inl rfl))

/-- What is followed by a mark that is not the semicolon does not touch the seam. -/
theorem closed {ends : Bool} (h : prog.Local σ depth ends)
    (hnext : ∀ a, (next a).Local σ depth touches) (hstuck : ∀ a, (next a).Stuck σ depth) :
    (prog >>= next).Local σ depth touches :=
  sequence h hnext (.inr (.inr hstuck))

theorem inside {ends : Bool} (h : prog.Local σ depth ends) : prog.Local σ depth false where
  unmarked := h.unmarked
  across hv hread hahead hafter := h.across hv hread hahead fun _ => hafter rfl

theorem pure {a : α} : (Pure.pure a : Script α).Local σ depth touches where
  unmarked hv hread := by
    obtain ⟨-, rfl⟩ := pure_of_read hread
    exact hv
  across {v w front after b} hv hread hahead _ := by
    obtain ⟨rfl, rfl⟩ := pure_of_read hread
    obtain rfl := List.append_cancel_right (show front ++ _ = after ++ _ from hahead)
    exact Takes.pure

theorem map {ends : Bool} {f : α → β} (h : prog.Local σ depth true) :
    (prog >>= fun a => Pure.pure (f a)).Local σ depth ends :=
  h.bind fun _ => pure

theorem fail {error : ParseError} : (Script.fail error : Script α).Local σ depth touches where
  unmarked _ hread := by cases hread
  across _ hread := by cases hread

theorem refuse {token : Token} {fault : GrammarFault} :
    (Script.refuse token fault : Script α).Local σ depth touches :=
  fail

theorem contradict {position : Position} {fault : InternalFault} :
    (Script.contradict position fault : Script α).Local σ depth touches :=
  fail

theorem contradictAt {token : Token} {fault : InternalFault} :
    (Script.contradictAt token fault : Script α).Local σ depth touches :=
  fail

/-! ### Requests -/

/-- A look at the next token.  At the seam the script has no success, or it ends for either
separator. -/
theorem look {next : Token → Script β} (hnext : ∀ token, (next token).Local σ depth touches)
    (hseam : touches = true → (∀ p, (next ⟨.punctuator .semicolon, p⟩).Stuck σ depth) ∨
      ∃ b, ∀ p, next ⟨.punctuator .semicolon, p⟩ = Pure.pure b ∧
        next ⟨.punctuator .comma, p⟩ = Pure.pure b) :
    (Script.peek >>= next).Local σ depth touches where
  unmarked hv hread := by
    obtain ⟨token, u, hpeek, hrest⟩ := bind_of_read hread
    obtain ⟨rfl, -⟩ := peek_of_read hpeek
    exact (hnext token).unmarked hv hrest
  across {v w front after b} hv hread hahead hafter := by
    obtain ⟨token, u, hpeek, hrest⟩ := bind_of_read hread
    obtain ⟨rfl, htoken⟩ := peek_of_read hpeek
    -- In front of the seam the same token is seen; at the seam it is the other separator.
    cases front with
    | cons piece others =>
        obtain rfl := Option.some_inj.1 htoken
        exact Takes.bind (Takes.peek (v := σ.across v []))
          ((hnext _).across hv hrest hahead hafter)
    | nil =>
        have hnil : after = [] := by
          refine σ.eq_nil_of_suffix ?_
          have hsuffix := Script.Takes.whole_suffix ⟨depth, hrest⟩
          rwa [View.whole_of_taken ((hnext token).unmarked (v := σ.before v []) hv hrest), hahead,
            View.whole_of_taken (v := σ.before v []) hv] at hsuffix
        have hmark : token = ⟨.punctuator .semicolon, σ.mark.position⟩ := by
          rw [← Option.some_inj.1 htoken, View.next]
          exact congrArg (Token.mk · σ.mark.position) (σ.kind_mark v)
        subst hnil hmark
        cases touches with
        | false => exact absurd rfl (hafter rfl)
        | true =>
            rcases hseam rfl with hstuck | ⟨b', hends⟩
            · rw [hstuck σ.mark.position v hv] at hrest
              cases hrest
            · rw [(hends _).1] at hrest
              obtain ⟨rfl, rfl⟩ := pure_of_read hrest
              refine Takes.bind (Takes.peek (v := σ.across v [])) ?_
              have hother : next ((σ.across v []).next σ.other) = Pure.pure b' := by
                change next ⟨v.kind σ.other, σ.other.position⟩ = _
                rcases σ.kind_other v with hkind | hkind
                · rw [hkind]
                  exact (hends _).1
                · rw [hkind]
                  exact (hends _).2
              rw [hother]
              exact Takes.pure

theorem peek {next : Token → Script β} (hnext : ∀ token, (next token).Local σ depth false) :
    (Script.peek >>= next).Local σ depth false :=
  look hnext nofun

/-- At the seam the script has no success. -/
theorem peekStuck {next : Token → Script β}
    (hnext : ∀ token, (next token).Local σ depth touches)
    (hseam : ∀ p, (next ⟨.punctuator .semicolon, p⟩).Stuck σ depth) :
    (Script.peek >>= next).Local σ depth touches :=
  look hnext fun _ => .inl hseam

/-- At the seam the script ends. -/
theorem peekPure {next : Token → Script β} {b : β}
    (hnext : ∀ token, (next token).Local σ depth touches)
    (hseam : ∀ p, next ⟨.punctuator .semicolon, p⟩ = Pure.pure b ∧
      next ⟨.punctuator .comma, p⟩ = Pure.pure b) :
    (Script.peek >>= next).Local σ depth touches :=
  look hnext fun _ => .inr ⟨b, hseam⟩

theorem here : Script.here.Local σ depth false :=
  peek fun _ => pure

theorem advance : Script.advance.Local σ depth touches where
  unmarked hv hread := by
    obtain ⟨-, rfl⟩ := advance_of_read hread
    simp [hv]
  across {v w front after token} hv hread hahead _ := by
    cases front with
    | nil =>
        -- The semicolon has been taken, so it is not left.
        obtain ⟨-, rfl⟩ := advance_cons_of_read (v := v) hv hread
        have hlength := congrArg List.length hahead
        rw [List.length_append] at hlength
        simp only [View.facing, List.length_cons] at hlength
        omega
    | cons piece others =>
        obtain ⟨rfl, rfl⟩ := advance_cons_of_read (v := v) hv hread
        obtain rfl := List.append_cancel_right (show others ++ _ = after ++ _ from hahead)
        exact Takes.advance (v := σ.across v []) hv

theorem rule {f : Nonterminal} (h : (Grammar.script f).Local σ depth touches) :
    (Script.rule f).Local σ (depth + 1) touches where
  unmarked hv hread := h.unmarked hv (rule_of_read hread)
  across hv hread hahead hafter := Takes.rule (h.across hv (rule_of_read hread) hahead hafter)

/-- Of what a request does to the table nothing is seen among the lexemes. -/
theorem tabular {r : Request} {T : SymbolTable → Option SymbolTable} {answer : r.Answer}
    (h : ∀ v : View, v.perform r = (T v.table).map fun U => (answer, { v with table := U })) :
    (Script.request r .done).Local σ depth touches where
  unmarked {v w a} hv hread := by
    obtain ⟨⟨a', u⟩, hperform, hdone⟩ := Option.bind_eq_some_iff.1 hread
    rw [h] at hperform
    obtain ⟨U, -, heq⟩ := Option.map_eq_some_iff.1 hperform
    cases heq
    cases hdone
    exact hv
  across {v w front after a} hv hread hahead _ := by
    obtain ⟨⟨a', u⟩, hperform, hdone⟩ := Option.bind_eq_some_iff.1 hread
    rw [h] at hperform
    obtain ⟨U, hU, heq⟩ := Option.map_eq_some_iff.1 hperform
    cases heq
    cases hdone
    obtain rfl := List.append_cancel_right (show front ++ _ = after ++ _ from hahead)
    refine Takes.request (w := σ.across { v with table := U } front) ?_ Takes.pure
    rw [h, show T (σ.across v front).table = some U from hU]
    rfl

theorem enter (kind : ScopeKind) : (Script.enter kind).Local σ depth touches :=
  tabular (T := fun T => some (T.enter kind)) fun _ => rfl

theorem leave (position : Position) : (Script.leave position).Local σ depth touches :=
  tabular (T := SymbolTable.leave?) fun _ => rfl

theorem declare (name : String) (meaning : Meaning) :
    (Script.declare name meaning).Local σ depth touches :=
  tabular (T := fun T => some (T.declare name meaning)) fun _ => rfl

theorem declareEnumerator (name : String) :
    (Script.declareEnumerator name).Local σ depth touches :=
  tabular (T := fun T => some (T.declareEnumerator name)) fun _ => rfl

/-! ### Single tokens -/

/-- Asking for a token that is no separator. -/
theorem nextIs (hseam : touches = true →
      kind ≠ .punctuator .semicolon ∧ kind ≠ .punctuator .comma) :
    (Script.nextIs kind).Local σ depth touches :=
  look (fun _ => pure) fun htouches => .inr ⟨false, fun _ =>
    ⟨congrArg Pure.pure (decide_eq_false (hseam htouches).1.symm),
      congrArg Pure.pure (decide_eq_false (hseam htouches).2.symm)⟩⟩

theorem accept (hseam : touches = true →
      kind ≠ .punctuator .semicolon ∧ kind ≠ .punctuator .comma) :
    (Script.accept kind).Local σ depth touches := by
  refine (nextIs hseam).sequence (fun found => ?_) ?_
  · cases found with
    | true => exact advance.map
    | false => exact pure
  · cases touches with
    | true => exact .inl rfl
    | false => exact .inr (.inl rfl)

/-- Inside, any token may be asked for. -/
theorem nextIsInside : (Script.nextIs kind).Local σ depth false :=
  nextIs nofun

theorem acceptInside : (Script.accept kind).Local σ depth false :=
  accept nofun

theorem expect (hkind : kind ≠ .punctuator .semicolon) :
    (Script.expect kind).Local σ depth touches := by
  refine peekStuck (fun token => ?_) fun p => ?_
  · split
    · exact advance
    · exact refuse
  · rw [if_neg hkind.symm]
    exact .refuse

/-- What has to be followed by a token that is not the semicolon does not touch the seam. -/
theorem upTo {ends : Bool} {next : α → Token → Script β} (h : prog.Local σ depth ends)
    (hkind : kind ≠ .punctuator .semicolon)
    (hnext : ∀ a token, (next a token).Local σ depth touches) :
    (prog >>= fun a => Script.expect kind >>= next a).Local σ depth touches :=
  h.closed (fun a => (expect hkind).bind (hnext a)) fun _ => (Stuck.expect hkind).bind

theorem expectWord : Script.expectWord.Local σ depth touches := by
  refine advance.bind fun token => ?_
  split
  · exact pure
  · exact pure
  · exact refuse

theorem acceptWord : Script.acceptWord.Local σ depth touches := by
  refine peekPure (b := none) (fun token => ?_) fun _ => ⟨rfl, rfl⟩
  split
  · exact expectWord.map
  · exact expectWord.map
  · exact pure

/-- A look at the second token, behind which the separators are not told apart. -/
theorem second {next : Token → Script β} {same : Script β}
    (hnext : ∀ token, (next token).Local σ depth false)
    (hseam : ∀ p, next ⟨.punctuator .semicolon, p⟩ = same ∧ next ⟨.punctuator .comma, p⟩ = same) :
    (Script.peekNth 1 >>= next).Local σ depth false where
  unmarked hv hread := by
    obtain ⟨token, u, hpeek, hrest⟩ := bind_of_read hread
    obtain ⟨rfl, -⟩ := peekNth_of_read hpeek
    exact (hnext token).unmarked hv hrest
  across {v w front after b} hv hread hahead hafter := by
    obtain ⟨token, u, hpeek, hrest⟩ := bind_of_read hread
    obtain ⟨rfl, htoken⟩ := peekNth_of_read hpeek
    have hothers := (hnext token).across hv hrest hahead hafter
    match front with
    | [] =>
        -- The seam came next already, so nothing in front of it is left.
        have hsuffix := Script.Takes.whole_suffix ⟨depth, hrest⟩
        rw [View.whole_of_taken ((hnext token).unmarked (v := σ.before v []) hv hrest), hahead,
          View.whole_of_taken (v := σ.before v []) hv] at hsuffix
        exact absurd (σ.eq_nil_of_suffix hsuffix) (hafter rfl)
    | [piece] =>
        obtain rfl : v.next σ.mark = token := Option.some_inj.1 htoken
        have hmark : next (v.next σ.mark) = same := by
          rw [View.next, σ.kind_mark]
          exact (hseam _).1
        have hother : next (v.next σ.other) = same := by
          rw [View.next]
          rcases σ.kind_other v with hkind | hkind
          · rw [hkind]
            exact (hseam _).1
          · rw [hkind]
            exact (hseam _).2
        refine Takes.bind (Takes.peekNth_one (v := σ.across v [])) ?_
        change (next (v.next σ.other)).Takes _ _ _
        rw [hother, ← hmark]
        exact hothers
    | piece :: other :: others =>
        obtain rfl : v.next other = token := Option.some_inj.1 htoken
        exact Takes.bind (Takes.peekNth_one (v := σ.across v [])) hothers

end Local

end Script
end CSyntax
