import CSyntax.Proofs.Scope.Recording

/-!
# Enumerators — a constant hides its own word in its value

In C the scope of an enumeration constant begins behind its enumerator.  Here the constant is
declared as soon as its name has been read, so that the words of its value are classified with the
constant in scope: a type name that the constant hides cannot be used there any more.

* `Grammar.enumeratorHead`, `Grammar.enumeratorValue` — an enumerator up to its value, and the value;
* `Grammar.enumerator_declares_first` — what words mean where the value begins, and where it ends;
* `Parser.enumerator_hides_itself` — a program in which the order shows in the tree.
-/

namespace CSyntax

/-! ## Words in a tidy table -/

namespace SymbolTable

variable {T : SymbolTable} {name other : String} {meaning : Meaning}

/-- Bodies of records bind nothing, so the innermost block is the first scope that counts. -/
theorem lookup?_eq_block (hT : T.RecordsEmpty) (h : T.block.get? name = some meaning) :
    T.lookup? name = some meaning := by
  rcases T with ⟨nested, file⟩
  simp only [lookup?, block] at h ⊢
  induction nested with
  | nil => simpa using h
  | cons scope outer ih =>
      have htail : RecordsEmpty { nested := outer, file := file } :=
        fun other hother => hT other (List.mem_cons_of_mem _ hother)
      rcases scope with ⟨kind, bindings⟩
      cases kind with
      | block =>
          have hget : bindings.get? name = some meaning := by simpa using h
          simp [hget]
      | record =>
          have hempty : bindings = [] := hT ⟨.record, bindings⟩ List.mem_cons_self rfl
          have hskip : decide (ScopeKind.record = ScopeKind.block) = false := rfl
          subst hempty
          simpa [List.findSome?_cons] using ih htail (by simpa [hskip] using h)

/-- A word that is bound somewhere leaves all others what they were. -/
theorem findSome?_modify_of_ne {scopes : List Scope} {i : Nat} (h : name ≠ other) :
    (scopes.modify i (·.declare name meaning)).findSome? (·.bindings.get? other) =
      scopes.findSome? (·.bindings.get? other) := by
  induction scopes generalizing i with
  | nil => simp
  | cons scope outer ih =>
      cases i with
      | zero => simp [List.findSome?_cons, Scope.declare, Bindings.get?_insert, h]
      | succ i => simp [List.findSome?_cons, ih]

/-- A constant is ordinary where it is declared, and no other word changes its meaning. -/
theorem lookup?_declareEnumerator (hT : T.RecordsEmpty) (name other : String) :
    (T.declareEnumerator name).lookup? other =
      if name = other then some .ordinary else T.lookup? other := by
  split
  · rename_i hname
    subst hname
    have hempty := hT.frame (frame_declareEnumerator T name)
    exact lookup?_eq_block hempty (by simp [block_declareEnumerator, Bindings.get?_insert])
  · rename_i hname
    rw [lookup?_eq_findSome?, scopes_declareEnumerator, findSome?_modify_of_ne hname,
      lookup?_eq_findSome?]

end SymbolTable

/-! ## Enumerators -/

/-- The value of an enumerator is the size of the constant itself. -/
def Enumerator.sizesItself : Enumerator → Bool
  | ⟨name, some (.sizeofExpr _ (.identifier _ other))⟩ => other = name
  | _ => false

theorem Enumerator.eq_of_sizesItself {e : Enumerator} (h : e.sizesItself = true) :
    ∃ p q, e = ⟨e.name, some (.sizeofExpr p (.identifier q e.name))⟩ := by
  unfold sizesItself at h
  split at h
  · obtain rfl := of_decide_eq_true h
    exact ⟨_, _, rfl⟩
  · cases h

namespace Grammar

open Script

/-- An enumerator up to its value: its name, and whether a value follows. -/
def enumeratorHead : Script (String × Bool) := do
  let name ← expectWord
  declareEnumerator name
  let valued ← acceptMark .assign
  return (name, valued)

/-- The value of an enumerator, if there is one. -/
def enumeratorValue : Bool → Script (Option Expr)
  | true => return some (← rule (.expression .conditional))
  | false => return none

theorem enumerator_eq : enumerator = do
    let (name, valued) ← enumeratorHead
    let value ← enumeratorValue valued
    return { name := name, value := value } := by
  unfold enumerator enumeratorHead
  simp only [bind_assoc, pure_bind]
  congr 1
  funext name
  congr 1
  funext _
  congr 1
  funext valued
  cases valued <;> rfl

theorem ends_enumeratorHead {T : SymbolTable} :
    enumeratorHead.Ends T fun head U => U = T.declareEnumerator head.1 := by
  refine Ends.stay Restores.expectWord fun name => Ends.bind (.declareEnumerator name) ?_
  rintro _ _ rfl
  exact Ends.stay (Restores.accept _) fun valued => Ends.pure rfl

theorem keeps_enumeratorHead {place : Place} : enumeratorHead.Keeps true place :=
  Restores.expectWord.keeps.bind fun name => (Keeps.declareEnumerator name).bind fun _ =>
    (Restores.accept _).keeps.bind fun _ => Restores.pure.keeps

/-- The value of an enumerator is read where the enumerator's own word is ordinary, whatever it
meant before, and all other words mean what they meant.  The word is ordinary behind the value.  At
any state that the reading of a text comes to, bodies of records bind nothing
(`Parser.Reaches.meets`). -/
theorem enumerator_declares_first {depth : Nat} {s t : ParserState} {e : Enumerator}
    (hs : s.table.RecordsEmpty) (hrun : enumerator.run (Parser.runAt depth) s = (.ok e, t)) :
    ∃ valued u, enumeratorHead.run (Parser.runAt depth) s = (.ok (e.name, valued), u) ∧
      (enumeratorValue valued).run (Parser.runAt depth) u = (.ok e.value, t) ∧
      (∀ name, u.table.lookup? name =
        if e.name = name then some .ordinary else s.table.lookup? name) ∧
      t.table.lookup? e.name = some .ordinary := by
  have hparts := hrun
  rw [enumerator_eq] at hparts
  obtain ⟨⟨name, valued⟩, u, hhead, hrest⟩ := run_of_bind hparts
  obtain ⟨value, v, hvalue, hdone⟩ := run_of_bind hrest
  cases hdone
  have hheadKeeps : enumeratorHead.Keeps true .anywhere := keeps_enumeratorHead
  have hkeeps : enumerator.Keeps true .anywhere := keeps_enumerator
  have htable : u.table = s.table.declareEnumerator name :=
    (Parser.ends_of_run hs (hheadKeeps s.table fun _ => trivial) ends_enumeratorHead hhead).2
  refine ⟨valued, u, hhead, hvalue, ?_, ?_⟩
  · rw [htable]
    exact SymbolTable.lookup?_declareEnumerator hs name
  · -- The value can declare further constants, which are ordinary words as well.
    obtain ⟨htidy, hgains⟩ := Parser.ends_of_run hs (hkeeps s.table fun _ => trivial)
      (gathers_enumerator (.refl s.table)) hrun
    refine SymbolTable.lookup?_eq_block htidy ?_
    rw [SymbolTable.Gains.iff.1 hgains name, if_pos]
    exact List.mem_append_right _ List.mem_cons_self

/-- A state in front of an enumerator that takes the name of a visible type and asks for its size. -/
def beforeSizeof : ParserState :=
  { cursor := .ofSource (.ofString "t = sizeof(t) \x7d" none)
    table := (SymbolTable.empty.declare "t" (.typeName (.named "int"))).enter .block }

/-- A type name is ordinary in the value of the constant that takes it, though it was none. -/
theorem enumerator_declares_first_sizeof :
    beforeSizeof.table.lookup? "t" = some (.typeName (.named "int")) ∧
    ∃ valued u t p q, enumeratorHead.run (Parser.runAt 4) beforeSizeof = (.ok ("t", valued), u) ∧
      u.table.lookup? "t" = some .ordinary ∧
      (enumeratorValue valued).run (Parser.runAt 4) u =
        (.ok (some (.sizeofExpr p (.identifier q "t"))), t) ∧
      t.table.lookup? "t" = some .ordinary := by
  have hreads : (enumerator.run (Parser.runAt 4) beforeSizeof).1.toOption.any (fun e =>
      e.name = "t" ∧ e.sizesItself = true) = true := by decide +kernel
  have htidy : beforeSizeof.table.RecordsEmpty := by
    have hblock : beforeSizeof.table.scopes.all (·.kind = .block) = true := by decide +kernel
    intro scope hscope hkind
    have := List.all_eq_true.1 hblock scope hscope
    simp [hkind] at this
  rcases hrun : enumerator.run (Parser.runAt 4) beforeSizeof with ⟨error | e, t⟩
  · simp [hrun, Except.toOption] at hreads
  · obtain ⟨valued, u, hhead, hvalue, hnames, hordinary⟩ := enumerator_declares_first htidy hrun
    rw [hrun] at hreads
    obtain ⟨hname, hsize⟩ := of_decide_eq_true hreads
    obtain ⟨p, q, he⟩ := Enumerator.eq_of_sizesItself hsize
    rw [hname] at he
    subst he
    exact ⟨by decide +kernel, valued, u, t, p, q, hhead, by simp [hnames], hvalue, hordinary⟩

end Grammar

namespace Parser

/-- The enumerators at the front of the body of the first function. -/
def frontEnumerators (unit : TranslationUnit) : Option (List Enumerator) :=
  match unit.functions.map FunctionDefinition.body with
  | (.declaration _ ⟨.enumeration none list, _, _⟩ :: _) :: _ => list
  | _ => none

/-- In a program the size of a type is asked for in the value of a constant that takes its name.
What is read is the size of the constant. -/
theorem enumerator_hides_itself : ∃ unit p q,
    parse "typedef int t; void f(void) { enum { t = sizeof(t) } x; }" none = .ok unit ∧
      frontEnumerators unit = some [⟨"t", some (.sizeofExpr p (.identifier q "t"))⟩] := by
  have hreads : (parse "typedef int t; void f(void) { enum { t = sizeof(t) } x; }" none).toOption.any
      (fun unit => (frontEnumerators unit).any fun list => list.length = 1 ∧
        ∀ e ∈ list, e.name = "t" ∧ e.sizesItself = true) = true := by decide +kernel
  rcases hparse : parse "typedef int t; void f(void) { enum { t = sizeof(t) } x; }" none with
    error | unit
  · simp [hparse, Except.toOption] at hreads
  · simp only [hparse, Except.toOption, Option.any_some] at hreads
    obtain ⟨list, hfront, hlist⟩ := (Option.any_eq_true _ _).1 hreads
    obtain ⟨hlength, hall⟩ := of_decide_eq_true hlist
    obtain ⟨e, rfl⟩ := List.length_eq_one_iff.1 hlength
    obtain ⟨hname, hsize⟩ := hall e List.mem_cons_self
    obtain ⟨p, q, he⟩ := Enumerator.eq_of_sizesItself hsize
    rw [hname] at he
    exact ⟨unit, p, q, rfl, hfront.trans (congrArg (some [·]) he)⟩

end Parser

end CSyntax
