import CSyntax.Proofs.Run.Takes

/-!
# Inversion — what a reading has gone through

If a script has been carried out on a view, then so have its parts, and a token that was taken
stood ahead.  These lemmas take a reading apart from its front, as those on `Takes` put one together.
-/

namespace CSyntax

/-- A token that is not the end of the text is a lexeme ahead. -/
theorem View.lexeme_of_token? {v : View} {pieces : List Piece} {token : Token}
    (h : (v.facing pieces).token? 0 = some token) (hkind : token.kind ≠ .endOfFile) :
    ∃ piece others, pieces = piece :: others ∧ token = v.next piece := by
  cases pieces with
  | nil =>
      obtain ⟨position, -, rfl⟩ := Option.map_eq_some_iff.1 h
      exact absurd rfl hkind
  | cons piece others => exact ⟨piece, others, rfl, (Option.some_inj.1 h).symm⟩

namespace Script

variable {α β : Type} {reader : Reader} {v w : View}

theorem bind_of_read {prog : Script α} {next : α → Script β} {b : β}
    (h : (prog >>= next).read reader v = some (b, w)) :
    ∃ a u, prog.read reader v = some (a, u) ∧ (next a).read reader u = some (b, w) := by
  rw [read_bind] at h
  obtain ⟨⟨a, u⟩, hprog, hnext⟩ := Option.bind_eq_some_iff.1 h
  exact ⟨a, u, hprog, hnext⟩

theorem pure_of_read {a b : α} (h : (Pure.pure a : Script α).read reader v = some (b, w)) :
    a = b ∧ v = w := by
  simpa using Option.some_inj.1 h

theorem read_rule (f : Nonterminal) : (rule f).read reader v = reader f v :=
  Option.bind_fun_some (reader f v)

theorem rule_of_read {f : Nonterminal} {result : f.Result}
    (h : (rule f).read reader v = some (result, w)) : reader f v = some (result, w) := by
  rwa [read_rule] at h

theorem peekNth_of_read {n : Nat} {token : Token}
    (h : (peekNth n).read reader v = some (token, w)) : w = v ∧ v.token? n = some token := by
  obtain ⟨⟨token', u⟩, hperform, hdone⟩ := Option.bind_eq_some_iff.1 h
  obtain ⟨token'', htoken, heq⟩ := Option.map_eq_some_iff.1 hperform
  cases heq
  cases hdone
  exact ⟨rfl, htoken⟩

theorem peek_of_read {token : Token} (h : peek.read reader v = some (token, w)) :
    w = v ∧ v.token? 0 = some token :=
  peekNth_of_read (n := 0) h

/-! ## Marks -/

theorem mark_of_read {m : Mark} (h : mark.read reader v = some (m, w)) :
    w = { v with taken := some [] } := by
  cases h
  rfl

theorem reset_of_read {m : Mark} (h : (reset m).read reader v = some ((), w)) :
    w = { v with ahead := v.taken.getD [] ++ v.ahead, taken := none } := by
  cases h
  rfl

theorem release_of_read {m : Mark} (h : (release m).read reader v = some ((), w)) :
    w = { v with taken := none } := by
  cases h
  rfl

/-! ## Single tokens -/

variable {piece : Piece} {pieces others : List Piece} {token : Token}
  {kind : TokenKind} {mark : Punctuator}

theorem advance_of_read (h : advance.read reader v = some (token, w)) :
    v.token? 0 = some token ∧ w =
      { v with
        ahead := v.ahead.tail
        taken := v.taken.map fun pieces => pieces ++ v.ahead.take 1 } := by
  obtain ⟨⟨token', u⟩, hperform, hdone⟩ := Option.bind_eq_some_iff.1 h
  obtain ⟨token'', htoken, heq⟩ := Option.map_eq_some_iff.1 hperform
  cases heq
  cases hdone
  exact ⟨htoken, rfl⟩

theorem advance_cons_of_read (hv : v.taken = none)
    (h : advance.read reader (v.facing (piece :: others)) = some (token, w)) :
    token = v.next piece ∧ w = v.facing others := by
  obtain ⟨htoken, rfl⟩ := advance_of_read h
  exact ⟨(Option.some_inj.1 htoken).symm, by simp [View.facing, hv]⟩

/-- A token that has been looked at and is then taken. -/
theorem advance_bind_of_read {next : Token → Script β} {b : β} (hv : v.taken = none)
    (htoken : (v.facing pieces).token? 0 = some token) (hkind : token.kind ≠ .endOfFile)
    (h : (advance >>= next).read reader (v.facing pieces) = some (b, w)) :
    ∃ piece others, pieces = piece :: others ∧ token = v.next piece ∧
      (next (v.next piece)).read reader (v.facing others) = some (b, w) := by
  obtain ⟨piece, others, rfl, rfl⟩ := View.lexeme_of_token? htoken hkind
  obtain ⟨_, _, hadvance, hnext⟩ := bind_of_read h
  obtain ⟨rfl, rfl⟩ := advance_cons_of_read hv hadvance
  exact ⟨piece, others, rfl, rfl, hnext⟩

theorem nextIs_of_read {found : Bool}
    (h : (nextIs kind).read reader (v.facing pieces) = some (found, w)) :
    w = v.facing pieces ∧
      ∃ token, (v.facing pieces).token? 0 = some token ∧ found = decide (token.kind = kind) := by
  obtain ⟨token, u, hpeek, hpure⟩ := bind_of_read h
  obtain ⟨rfl, htoken⟩ := peek_of_read hpeek
  obtain ⟨rfl, rfl⟩ := pure_of_read hpure
  exact ⟨rfl, token, htoken, rfl⟩

theorem acceptMark_of_read {found : Bool} (hv : v.taken = none)
    (h : (acceptMark mark).read reader (v.facing pieces) = some (found, w)) :
    (found = true ∧ ∃ piece others, pieces = piece :: others ∧
      v.kind piece = .punctuator mark ∧ w = v.facing others) ∨
      (found = false ∧ w = v.facing pieces) := by
  obtain ⟨is, u, hnext, h⟩ := bind_of_read h
  obtain ⟨rfl, token, htoken, rfl⟩ := nextIs_of_read hnext
  split at h
  · rename_i htrue
    have hkind : token.kind = .punctuator mark := by simpa using htrue
    obtain ⟨piece, others, rfl, rfl, h⟩ := advance_bind_of_read hv htoken (by simp [hkind]) h
    obtain ⟨rfl, rfl⟩ := pure_of_read h
    exact Or.inl ⟨rfl, piece, others, rfl, hkind, rfl⟩
  · obtain ⟨rfl, rfl⟩ := pure_of_read h
    exact Or.inr ⟨rfl, rfl⟩

theorem expectMark_of_read (hv : v.taken = none)
    (h : (expectMark mark).read reader (v.facing pieces) = some (token, w)) :
    ∃ piece others, pieces = piece :: others ∧ v.kind piece = .punctuator mark ∧
      w = v.facing others := by
  obtain ⟨token', u, hpeek, h⟩ := bind_of_read h
  obtain ⟨rfl, htoken⟩ := peek_of_read hpeek
  split at h
  · rename_i hkind
    obtain ⟨piece, others, rfl, rfl⟩ := View.lexeme_of_token? htoken (by simp [hkind])
    exact ⟨piece, others, rfl, hkind, (advance_cons_of_read hv h).2⟩
  · cases h

/-- The same, where the view is not taken apart. -/
theorem acceptMark_ahead_of_read {found : Bool} (hv : v.taken = none)
    (h : (acceptMark mark).read reader v = some (found, w)) :
    (found = true ∧ ∃ piece others, v.ahead = piece :: others ∧
      v.kind piece = .punctuator mark ∧ w = v.facing others) ∨ (found = false ∧ v = w) := by
  have hfacing : (acceptMark mark).read reader (v.facing v.ahead) = some (found, w) := h
  exact (acceptMark_of_read hv hfacing).imp_right fun ⟨hfound, hw⟩ => ⟨hfound, hw.symm⟩

theorem expectMark_ahead_of_read (hv : v.taken = none)
    (h : (expectMark mark).read reader v = some (token, w)) :
    ∃ piece others, v.ahead = piece :: others ∧ v.kind piece = .punctuator mark ∧
      w = v.facing others := by
  have hfacing : (expectMark mark).read reader (v.facing v.ahead) = some (token, w) := h
  exact expectMark_of_read hv hfacing

theorem expectWord_of_read {name : String} (hv : v.taken = none)
    (h : expectWord.read reader (v.facing pieces) = some (name, w)) :
    ∃ piece others, pieces = piece :: others ∧
      (v.kind piece = .identifier name ∨ v.kind piece = .typeName name) ∧ w = v.facing others := by
  obtain ⟨token, u, hadvance, hword⟩ := bind_of_read h
  have htoken := (advance_of_read hadvance).1
  split at hword
  · rename_i hkind
    obtain ⟨piece, others, rfl, rfl, hdone⟩ := advance_bind_of_read hv htoken (by simp [hkind]) h
    simp only [View.kind_next] at hkind hdone
    rw [hkind] at hdone
    obtain ⟨rfl, rfl⟩ := pure_of_read hdone
    exact ⟨piece, others, rfl, Or.inl hkind, rfl⟩
  · rename_i hkind
    obtain ⟨piece, others, rfl, rfl, hdone⟩ := advance_bind_of_read hv htoken (by simp [hkind]) h
    simp only [View.kind_next] at hkind hdone
    rw [hkind] at hdone
    obtain ⟨rfl, rfl⟩ := pure_of_read hdone
    exact ⟨piece, others, rfl, Or.inr hkind, rfl⟩
  · cases hword

theorem acceptWord_of_read {name? : Option String} (hv : v.taken = none)
    (h : acceptWord.read reader (v.facing pieces) = some (name?, w)) :
    (∃ name piece others, name? = some name ∧ pieces = piece :: others ∧
      (v.kind piece = .identifier name ∨ v.kind piece = .typeName name) ∧ w = v.facing others) ∨
      (name? = none ∧ w = v.facing pieces) := by
  have word : ∀ {w : View} {name? : Option String},
      (expectWord >>= fun name => Pure.pure (some name)).read reader (v.facing pieces) =
        some (name?, w) →
      ∃ name piece others, name? = some name ∧ pieces = piece :: others ∧
        (v.kind piece = .identifier name ∨ v.kind piece = .typeName name) ∧ w = v.facing others := by
    intro w name? h
    obtain ⟨name, u, hword, hdone⟩ := bind_of_read h
    obtain ⟨rfl, rfl⟩ := pure_of_read hdone
    obtain ⟨piece, others, hpieces, hkind, hu⟩ := expectWord_of_read hv hword
    exact ⟨name, piece, others, rfl, hpieces, hkind, hu⟩
  obtain ⟨token, u, hpeek, h⟩ := bind_of_read h
  obtain ⟨rfl, htoken⟩ := peek_of_read hpeek
  split at h
  · exact Or.inl (word h)
  · exact Or.inl (word h)
  · obtain ⟨rfl, rfl⟩ := pure_of_read h
    exact Or.inr ⟨rfl, rfl⟩

/-! ## Scopes -/

theorem enter_of_read {kind : ScopeKind} (h : (enter kind).read reader v = some ((), w)) :
    w = { v with table := v.table.enter kind } := by
  cases h
  rfl

theorem leave_of_read {position : Position} (h : (leave position).read reader v = some ((), w)) :
    ∃ T, v.table.leave? = some T ∧ w = { v with table := T } := by
  obtain ⟨⟨⟨⟩, u⟩, hperform, hdone⟩ := Option.bind_eq_some_iff.1 h
  obtain ⟨T, hleave, heq⟩ := Option.map_eq_some_iff.1 hperform
  cases heq
  cases hdone
  exact ⟨T, hleave, rfl⟩

/-! ## Parts of what was taken -/

theorem Takes.exists_bind {prog : Script α} {next : α → Script β} {b : β}
    (h : (prog >>= next).Takes v b w) : ∃ a u, prog.Takes v a u ∧ (next a).Takes u b w := by
  obtain ⟨depth, hread⟩ := h
  obtain ⟨a, u, hprog, hnext⟩ := bind_of_read hread
  exact ⟨a, u, ⟨depth, hprog⟩, depth, hnext⟩

theorem Takes.of_pure {a b : α} (h : (Pure.pure a : Script α).Takes v b w) : a = b ∧ v = w := by
  obtain ⟨depth, hread⟩ := h
  exact pure_of_read hread

theorem Takes.of_rule {f : Nonterminal} {result : f.Result}
    (h : (Script.rule f).Takes v result w) : (Grammar.script f).Takes v result w := by
  obtain ⟨depth, hread⟩ := h
  cases depth with
  | zero => cases hread
  | succ depth => exact ⟨depth, rule_of_read hread⟩

end Script

end CSyntax
