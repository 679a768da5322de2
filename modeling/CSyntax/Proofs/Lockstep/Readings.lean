import CSyntax.Proofs.Lockstep.Runs

/-!
# Readings — what is taken off one view is taken off a corresponding one

`Parser.lockstep` compares two runs.  On views the same holds without the account of depths and
states: scripts that go abreast take corresponding lexemes off corresponding views, with calls nested to
the same depth (`Parser.exists_takes_of_sync`, `Parser.exists_takes_of_views`).
-/

namespace CSyntax
namespace Script

variable {K : Correspondence} {α β : Type} {v v' w : View} {a : α}

/-- Two requests that do corresponding things to the views are made, and the scripts are carried
on. -/
theorem exists_read_request {r r' : Request} {next : r.Answer → Script α}
    {next' : r'.Answer → Script β} {A : r.Answer → r'.Answer → Prop} {reader : Reader}
    {P : β → View → Prop} (hread : (Script.request r next).read reader v = some (a, w))
    (hresponds : K.Responds A (v.perform r) (v'.perform r'))
    (hnext : ∀ answer answer' u u', v.perform r = some (answer, u) → A answer answer' →
      K.Views u u' → (next answer).read reader u = some (a, w) →
      ∃ a' w', (next' answer').read reader u' = some (a', w') ∧ P a' w') :
    ∃ a' w', (Script.request r' next').read reader v' = some (a', w') ∧ P a' w' := by
  obtain ⟨⟨answer, u⟩, hperform, hread⟩ := Option.bind_eq_some_iff.1 hread
  rw [hperform] at hresponds
  generalize hperform' : v'.perform r' = x' at hresponds
  cases hresponds with
  | @some _ y' hrelated =>
      obtain ⟨a', w', hread', hP⟩ := hnext answer y'.1 u y'.2 hperform hrelated.1 hrelated.2 hread
      exact ⟨a', w', Option.bind_eq_some_iff.2 ⟨y', hperform', hread'⟩, hP⟩

/-- Of scripts that go abreast the second takes what the first takes if the rules that they call
do. -/
theorem Abreast.exists_read {N depth : Nat}
    (hcalls : ∀ {f f' : Nonterminal} {R : f.Result → f'.Result → Prop}, f.Paired K f' R →
      ∀ {v v' w : View} {result : f.Result}, K.Views v v' → v.taken = none →
      Parser.readAt depth f v = some (result, w) →
      ∃ result' w', Parser.readAt depth f' v' = some (result', w') ∧ R result result' ∧
        K.Views w w' ∧ w.taken = none ∧ w.ahead.length ≤ v.ahead.length)
    {prog : Script α} {prog' : Script β} {P : α → β → View → Prop}
    (h : Abreast K N P prog prog' v v')
    (hread : prog.read (Parser.readAt depth) v = some (a, w)) :
    ∃ a' w', prog'.read (Parser.readAt depth) v' = some (a', w') ∧ K.Views w w' ∧ P a a' w := by
  induction h with
  | done ha hviews =>
      cases hread
      exact ⟨_, _, rfl, hviews, ha⟩
  | fail _ => cases hread
  | request _ _ hresponds _ ih =>
      refine exists_read_request hread hresponds ?_
      intro answer answer' u u' hperform hanswer hviews hread
      exact ih answer answer' u u' hperform hanswer hviews hread
  | call hpaired hviews htaken _ _ ih =>
      obtain ⟨⟨result, u⟩, hresult, hread⟩ := Option.bind_eq_some_iff.1 hread
      obtain ⟨result', u', hresult', hR, hviews, htaken, hlength⟩ :=
        hcalls hpaired hviews htaken hresult
      obtain ⟨a', w', hread', hrest⟩ := ih result result' u u' hR hviews htaken hlength hread
      exact ⟨a', w', Option.bind_eq_some_iff.2 ⟨_, hresult', hread'⟩, hrest⟩

end Script

namespace Parser

variable {K : Correspondence} {v v' w : View}

theorem exists_readAt_of_views {depth : Nat} {f f' : Nonterminal}
    {R : f.Result → f'.Result → Prop} (h : f.Paired K f' R) {result : f.Result}
    (hviews : K.Views v v') (htaken : v.taken = none)
    (hread : readAt depth f v = some (result, w)) :
    ∃ result' w', readAt depth f' v' = some (result', w') ∧ R result result' ∧ K.Views w w' ∧
      w.taken = none ∧ w.ahead.length ≤ v.ahead.length := by
  induction depth generalizing f f' v v' w with
  | zero => cases hread
  | succ depth ih =>
      obtain ⟨a', w', hread', hviews', y, ⟨hR, hsaved, -⟩, hfits⟩ :=
        ((h.sync Stand.start rfl nofun).abreast hviews
          (.start htaken (Nat.le_refl v.ahead.length))).exists_read
          (fun {_ _ _} hpaired _ _ _ _ hviews htaken hread => ih hpaired hviews htaken hread) hread
      exact ⟨a', w', hread', hR, hviews', by simpa [Stand.Recalls, hsaved] using hfits.saved,
        hfits.within⟩

/-- Scripts of the grammar take corresponding lexemes off corresponding views. -/
theorem exists_takes_of_sync {α β : Type} {prog : Script α} {prog' : Script β} {R : α → β → Prop}
    {sinks : Bool} {a : α} (h : Script.Sync K false prog prog' R sinks) (hviews : K.Views v v')
    (htaken : v.taken = none) (htakes : prog.Takes v a w) :
    ∃ a' w', prog'.Takes v' a' w' ∧ R a a' ∧ K.Views w w' := by
  obtain ⟨depth, hread⟩ := htakes
  obtain ⟨a', w', hread', hviews', y, ⟨hR, -⟩, -⟩ :=
    ((h Stand.start rfl nofun).abreast hviews
      (.start htaken (Nat.le_refl v.ahead.length))).exists_read
      (fun {_ _ _} hpaired _ _ _ _ hviews htaken hread =>
        exists_readAt_of_views hpaired hviews htaken hread) hread
  exact ⟨a', w', ⟨depth, hread'⟩, hR, hviews'⟩

/-- What declarations are taken off one view can be taken off a view that corresponds to it. -/
theorem exists_takes_of_views {list : List ExternalDeclaration} (hviews : K.Views v v')
    (htaken : v.taken = none) (h : Grammar.externalDeclarations.Takes v list w) :
    ∃ list' w', Grammar.externalDeclarations.Takes v' list' w' := by
  obtain ⟨depth, hread⟩ := h
  obtain ⟨list', w', hread', -⟩ := exists_readAt_of_views .externalDeclarations hviews htaken
    (show readAt (depth + 1) .externalDeclarations v = some (list, w) from hread)
  exact ⟨list', w', depth, hread'⟩

end Parser
end CSyntax
