import CSyntax.Proofs.Run.Chronicle
import CSyntax.Proofs.Run.Succession
import CSyntax.Proofs.Scope.Enumerators
import CSyntax.Proofs.Scope.Units

/-!
# Parameters — what the words of a parameter list mean in the body

The scope of a parameter list is closed before the parser knows that a body follows.  For the body a
new block is opened, and the names of the parameters are declared in it once more.  So they hide the
words outside, from the start of the body until a declaration in it says otherwise.  An enumeration
constant of a parameter's type is no name of a parameter, and is lost with the scope of the list.

* `SymbolTable.inFile` — a table with a file scope around it, so that the block of a function can be
  looked at as if it were the file scope;
* `SymbolTable.Since` — type names of the function are those that it has declared;
* `Parser.parameters_hide` — what words mean at the start of a body, and what the names of its
  parameters mean inside;
* `Parser.constants_of_parameters_lost` — a program in which the loss of a constant shows.
-/

namespace CSyntax

variable {depth : Nat} {s t : ParserState} {T U : SymbolTable} {file : Bindings Meaning}

namespace SymbolTable

/-! ## A table inside a file scope -/

/-- The table with a file scope around it.  What was the file scope is a block then. -/
def inFile (table : SymbolTable) (file : Bindings Meaning) : SymbolTable :=
  { nested := table.scopes, file := file }

theorem scopes_inFile (T : SymbolTable) (file : Bindings Meaning) :
    (T.inFile file).scopes = T.scopes ++ [{ kind := .block, bindings := file }] := rfl

theorem inFile_injective (h : T.inFile file = U.inFile file) : T = U :=
  scopes_injective (congrArg nested h)

theorem enter_inFile (T : SymbolTable) (kind : ScopeKind) (file : Bindings Meaning) :
    (T.inFile file).enter kind = (T.enter kind).inFile file := rfl

theorem declare_inFile (T : SymbolTable) (name : String) (meaning : Meaning)
    (file : Bindings Meaning) :
    (T.inFile file).declare name meaning = (T.declare name meaning).inFile file := by
  rcases T with ⟨_ | ⟨scope, outer⟩, own⟩ <;> rfl

theorem modify_append_of_lt {scopes outer : List Scope} {f : Scope → Scope} {i : Nat}
    (h : i < scopes.length) : (scopes ++ outer).modify i f = scopes.modify i f ++ outer := by
  induction scopes generalizing i with
  | nil => cases h
  | cons scope scopes ih =>
      cases i with
      | zero => rfl
      | succ i => simpa using ih (Nat.lt_of_succ_lt_succ h)

theorem declareEnumerator_inFile (T : SymbolTable) (name : String) (file : Bindings Meaning) :
    (T.inFile file).declareEnumerator name = (T.declareEnumerator name).inFile file := by
  apply scopes_injective
  -- The innermost block is one of the inner scopes, since the outermost of these is a block.
  have hmem : ScopeKind.block ∈ T.kinds := List.mem_of_getElem? T.kind_at_blockIndex
  have hkinds : (T.inFile file).kinds = T.kinds ++ [.block] := by
    rw [kinds, scopes_inFile, List.map_append]
    rfl
  have hindex : (T.inFile file).blockIndex = T.blockIndex := by
    rw [blockIndex, blockIndex, hkinds, List.idxOf_append_of_mem hmem]
  have hlength : T.blockIndex < T.scopes.length := by
    have hlt := List.idxOf_lt_length_of_mem hmem
    rwa [kinds, List.length_map] at hlt
  rw [scopes_declareEnumerator, scopes_inFile, hindex, scopes_inFile, scopes_declareEnumerator,
    modify_append_of_lt hlength]

theorem leave?_inFile (h : T.leave? = some U) (file : Bindings Meaning) :
    (T.inFile file).leave? = some (U.inFile file) := by
  obtain ⟨scope, hscopes⟩ := leave?_eq_some_iff.1 h
  refine leave?_eq_some_iff.2 ⟨scope, ?_⟩
  rw [scopes_inFile, hscopes, scopes_inFile, List.cons_append]

theorem lookup?_inFile (T : SymbolTable) (file : Bindings Meaning) (name : String) :
    (T.inFile file).lookup? name = (T.lookup? name <|> file.get? name) := by
  rw [lookup?, lookup?_eq_findSome?]
  rfl

/-- Where the file scope alone is open, a block is a table of its own. -/
theorem enter_block_of_nested_eq_nil (hT : T.nested = []) :
    T.enter .block = SymbolTable.empty.inFile T.file := by
  simp [enter, inFile, scopes, empty, hT, Scope.fresh]

/-! ## Names that are declared in a row -/

theorem declareNames_cons (T : SymbolTable) (first : Parameter) (others : List Parameter) :
    T.declareNames (first :: others) =
      (first.name.elim T fun name => T.declare name .ordinary).declareNames others := rfl

theorem nested_declareNames (hT : T.nested = []) (list : List Parameter) :
    (T.declareNames list).nested = [] := by
  induction list generalizing T with
  | nil => exact hT
  | cons first others ih =>
      rw [declareNames_cons]
      cases first.name with
      | none => exact ih hT
      | some name => exact ih (by simp [declare, hT])

theorem declareNames_inFile (T : SymbolTable) (list : List Parameter) (file : Bindings Meaning) :
    (T.inFile file).declareNames list = (T.declareNames list).inFile file := by
  induction list generalizing T with
  | nil => rfl
  | cons first others ih =>
      rw [declareNames_cons, declareNames_cons]
      cases first.name with
      | none => exact ih T
      | some name => rw [Option.elim_some, Option.elim_some, declare_inFile, ih]

theorem lookup?_declareNames (T : SymbolTable) (list : List Parameter) (other : String) :
    (T.declareNames list).lookup? other =
      if ∃ p ∈ list, p.name = some other then some .ordinary else T.lookup? other := by
  induction list generalizing T with
  | nil => simp [declareNames]
  | cons first others ih =>
      rw [declareNames_cons, ih]
      cases hname : first.name with
      | none => simp [hname]
      | some name =>
          by_cases hsame : name = other
          · simp [hname, hsame, lookup?_declare]
          · simp [hname, hsame, lookup?_declare]

/-! ## What a function has declared -/

theorem isSome_file_declare {name other : String} (h : (T.file.get? other).isSome = true)
    (meaning : Meaning) : ((T.declare name meaning).file.get? other).isSome = true := by
  unfold declare
  split
  · exact h
  · rw [Bindings.get?_insert]
    split
    · rfl
    · exact h

theorem isSome_file_declareEnumerator {name other : String}
    (h : (T.file.get? other).isSome = true) :
    ((T.declareEnumerator name).file.get? other).isSome = true := by
  unfold declareEnumerator
  split
  · exact h
  · rw [Bindings.get?_insert]
    split
    · rfl
    · exact h

theorem file_of_leave? (h : T.leave? = some U) : U.file = T.file := by
  unfold leave? at h
  split at h
  · cases h
    rfl
  · cases h

/-- The type names in a function are those that something has declared in it, and the words that are
given are bound in its own block. -/
structure Since (names : List String) (es : List Event) (T : SymbolTable) : Prop where
  bound : ∀ name ∈ names, (T.file.get? name).isSome = true
  declared : ∀ scope ∈ T.scopes, ∀ name type, scope.bindings.get? name = some (.typeName type) →
    ∃ y, .requested (.declare name (.typeName type)) y ∈ es

namespace Since

variable {names : List String} {es fs : List Event}

/-- The names of parameters are ordinary words of the block that they are declared in. -/
theorem parameters (list : List Parameter) :
    Since (list.filterMap Parameter.name) [] (SymbolTable.empty.declareNames list) := by
  have hnested := nested_declareNames (T := SymbolTable.empty) rfl list
  have hget : ∀ name, (SymbolTable.empty.declareNames list).file.get? name =
      if ∃ p ∈ list, p.name = some name then some .ordinary else none := by
    intro name
    have hlookup := lookup?_declareNames SymbolTable.empty list name
    rw [lookup?, hnested] at hlookup
    exact hlookup
  refine ⟨fun name hname => ?_, fun scope hscope name type hname => ?_⟩
  · rw [hget, if_pos (List.mem_filterMap.1 hname)]
    rfl
  · rw [scopes, hnested] at hscope
    obtain rfl := List.mem_singleton.1 hscope
    rw [hget] at hname
    split at hname <;> cases hname

theorem mono (h : Since names es T) (hsub : es ⊆ fs) : Since names fs T where
  bound := h.bound
  declared scope hscope name type hname :=
    (h.declared scope hscope name type hname).imp fun _ hmem => hsub hmem

/-- A word is bound in one scope, for something that is no type or has been declared as one. -/
theorem modify {i : Nat} {name : String} {meaning : Meaning} (h : Since names es T)
    (hfile : ∀ other, (T.file.get? other).isSome = true → (U.file.get? other).isSome = true)
    (hscopes : U.scopes = T.scopes.modify i (·.declare name meaning))
    (hmeaning : ∀ type, meaning = .typeName type →
      ∃ y, .requested (.declare name (.typeName type)) y ∈ es) : Since names es U where
  bound other hother := hfile other (h.bound other hother)
  declared scope hscope other type hother := by
    rw [hscopes] at hscope
    obtain ⟨j, hj⟩ := List.mem_iff_getElem?.1 hscope
    rw [List.getElem?_modify] at hj
    obtain ⟨before, hbefore, hchanged⟩ := Option.map_eq_some_iff.1 hj
    have hmem := List.mem_of_getElem? hbefore
    split at hchanged
    · rw [← hchanged, Scope.declare, Bindings.get?_insert] at hother
      split at hother
      · rename_i hname
        exact hname ▸ hmeaning type (Option.some.inj hother)
      · exact h.declared before hmem other type hother
    · exact h.declared before hmem other type (hchanged ▸ hother)

theorem step {r : Request} {x : ParserState} {answer : r.Answer} (h : Since names es T)
    (hstep : (nesting true).step r T answer U) : Since names (es ++ [.requested r x]) U := by
  have h' : Since names (es ++ [.requested r x]) T := h.mono (List.subset_append_left _ _)
  cases r with
  | enter kind =>
      obtain rfl : U = T.enter kind := hstep
      refine ⟨h'.bound, fun scope hscope name type hname => ?_⟩
      rcases List.mem_cons.1 hscope with rfl | hscope
      · cases hname
      · exact h'.declared scope hscope name type hname
  | leave position =>
      obtain ⟨first, hscopes⟩ := leave?_eq_some_iff.1 hstep
      have hfile : U.file = T.file := file_of_leave? hstep
      refine ⟨fun name hname => hfile ▸ h'.bound name hname, fun scope hscope => ?_⟩
      exact h'.declared scope (hscopes ▸ List.mem_cons_of_mem _ hscope)
  | declare name meaning =>
      obtain ⟨-, rfl⟩ := hstep
      refine h'.modify (fun _ hother => isSome_file_declare hother meaning)
        (scopes_declare T name meaning) ?_
      rintro type rfl
      exact ⟨x, List.mem_append_right _ List.mem_cons_self⟩
  | declareEnumerator name =>
      obtain rfl : U = T.declareEnumerator name := hstep
      exact h'.modify (fun _ hother => isSome_file_declareEnumerator hother)
        (scopes_declareEnumerator T name) nofun
  | _ => exact (show U = T from hstep) ▸ h'

/-- A word that is bound in the function means nothing from outside. -/
theorem lookup? {name : String} (h : Since names es T) (hname : name ∈ names) :
    (T.inFile file).lookup? name = some .ordinary ∨
      ∃ type y, (T.inFile file).lookup? name = some (.typeName type) ∧
        .requested (.declare name (.typeName type)) y ∈ es := by
  have hsome : (T.lookup? name).isSome = true := by
    simp [SymbolTable.lookup?, h.bound name hname]
  obtain ⟨meaning, hmeaning⟩ := Option.isSome_iff_exists.1 hsome
  have hinside : (T.inFile file).lookup? name = some meaning := by
    rw [lookup?_inFile, hmeaning]
    rfl
  rw [hinside]
  cases meaning with
  | ordinary => exact .inl rfl
  | typeName type =>
      rw [lookup?_eq_findSome?] at hmeaning
      obtain ⟨scope, hscope, hget⟩ := List.exists_of_findSome?_eq_some hmeaning
      obtain ⟨y, hy⟩ := h.declared scope hscope name type hget
      exact .inr ⟨type, y, rfl, hy⟩

end Since

end SymbolTable

/-! ## Inside a function -/

/-- The table of the state is that of a function, which does not reach the file scope around it. -/
def inFunction (file : Bindings Meaning) : Chronicle SymbolTable where
  Tells _ s T := s.table = T.inFile file
  returned _ _ h := h

/-- Requests that are made inside a function do to its own scopes what they would do to a table. -/
theorem follows_inFunction (file : Bindings Meaning) (trace : List Event) :
    (nesting true).Follows (inFunction file) trace := by
  intro r s _ es T (hs : s.table = T.inFile file) may answer t hperform
  cases r with
  | enter kind =>
      refine ⟨T.enter kind, rfl, ?_⟩
      cases hperform
      change s.table.enter kind = _
      rw [hs, SymbolTable.enter_inFile]
  | leave position =>
      obtain ⟨U, hleave⟩ := Option.ne_none_iff_exists'.1 may
      have houter := SymbolTable.leave?_inFile hleave file
      simp only [Request.perform, hs, houter] at hperform
      cases hperform
      exact ⟨U, hleave, rfl⟩
  | declare name meaning =>
      refine ⟨T.declare name meaning, ⟨may rfl, rfl⟩, ?_⟩
      cases hperform
      change s.table.declare name meaning = _
      rw [hs, SymbolTable.declare_inFile]
  | declareEnumerator name =>
      refine ⟨T.declareEnumerator name, rfl, ?_⟩
      cases hperform
      change s.table.declareEnumerator name = _
      rw [hs, SymbolTable.declareEnumerator_inFile]
  | _ =>
      have htable : t.table = s.table := (congrArg (·.2.table) hperform).symm
      exact ⟨T, rfl, htable.trans hs⟩

namespace Grammar

open Script

/-! ## The head of a body -/

/-- What stands between the declarator of a function and its body: the name of the function is
declared outside of the body, and the names of its parameters inside. -/
def bodyHead (name : String) (parameters : List Parameter) : Script Unit := do
  declare name .ordinary
  let _ ← expectMark .openBrace
  enter .block
  declareParameters parameters

theorem meets_declareParameters (list : List Parameter) (hT : T.InBlock) :
    (declareParameters list).Meets (nesting true) T fun _ U _ => U = T.declareNames list := by
  induction list generalizing T with
  | nil => exact rfl
  | cons first others ih =>
      rw [SymbolTable.declareNames_cons]
      unfold declareParameters
      split
      · rename_i name hname
        refine ⟨fun _ => hT, ?_⟩
        rintro _ _ ⟨-, rfl⟩
        rw [hname]
        exact ih ((SymbolTable.frame_declare hT name .ordinary).inBlock hT)
      · rename_i hname
        rw [hname]
        exact ih hT

theorem meets_bodyHead {name : String} {parameters : List Parameter} (hT : T.InBlock) :
    (bodyHead name parameters).Meets (nesting true) T fun _ U _ =>
      U = ((T.declare name .ordinary).enter .block).declareNames parameters := by
  have hdeclare : (declare name .ordinary).Meets (nesting true) T fun _ U _ =>
      U = T.declare name .ordinary := ⟨fun _ => hT, fun _ _ h => h.2⟩
  refine Meets.bind hdeclare ?_
  rintro _ _ _ rfl
  refine Meets.bind (Restores.expect _ _) ?_
  rintro _ _ _ rfl
  refine ⟨trivial, ?_⟩
  rintro _ _ rfl
  exact meets_declareParameters parameters rfl

/-- A function that has been read has a head, and behind it its body. -/
theorem exists_body {callee : Callee} {specifiers : Specifiers} {d : Declarator}
    {function : FunctionDefinition}
    (hrun : (functionDefinition specifiers d).run callee s = (.ok function, t)) :
    d.parameters? = some function.parameters ∧ ∃ u v,
      (bodyHead function.name function.parameters).run callee s = (.ok (), u) ∧
      callee .blockItems u = (.ok function.body, v) := by
  unfold functionDefinition at hrun
  split at hrun
  · cases hrun
  · rename_i name position hname
    split at hrun
    · cases hrun
    · split at hrun
      · cases hrun
      · rename_i parameters hparameters
        have hparts : ((bodyHead name parameters >>= fun _ => rule .blockItems) >>= fun body => do
            let close ← expectMark .closeBrace
            leave close.position
            return ({ name := name, type := d.type specifiers.base, parameters := parameters,
                      body := body, storage := specifiers.storage,
                      position := specifiers.position } : FunctionDefinition)).run callee s =
              (.ok function, t) := by
          simpa only [bodyHead, bind_assoc] using hrun
        obtain ⟨body, v, hbody, hend⟩ := run_of_bind hparts
        obtain ⟨⟨⟩, u, hhead, hitems⟩ := run_of_bind hbody
        obtain ⟨close, w, -, hleave⟩ := run_of_bind hend
        obtain ⟨⟨⟩, x, -, hdone⟩ := run_of_bind hleave
        cases hdone
        exact ⟨hparameters, u, v, hhead, (run_rule callee .blockItems u).symm.trans hitems⟩

end Grammar

namespace Parser

variable {text : String}

/-! ## The functions of a unit -/

/-- Every function of the rule's result has been defined where the rule was carried out. -/
theorem exists_definesFunction {name : Option String} {list : List ExternalDeclaration}
    {function : FunctionDefinition} (hmem : .function function ∈ list)
    (hreaches : Reaches text name depth (.rule .externalDeclarations) s)
    (hrun : runAt depth .externalDeclarations s = (.ok list, t)) :
    ∃ depth specifiers d u v, DefinesFunction text name depth specifiers d u ∧
      (Grammar.functionDefinition specifiers d).run (runAt depth) u = (.ok function, v) := by
  induction depth generalizing s t list with
  | zero => cases hrun
  | succ depth ih =>
      change (Script.peek >>= _).run (runAt depth) s = _ at hrun
      obtain ⟨token, u, hpeek, hrest⟩ := Script.run_of_bind hrun
      by_cases hend : token.isEndOfFile = true
      · rw [if_pos hend] at hrest
        cases hrest
        cases hmem
      · rw [if_neg hend] at hrest
        obtain ⟨first, v, hfirst, hothers⟩ := Script.run_of_bind hrest
        obtain ⟨others, w, hlist, hdone⟩ := Script.run_of_bind hothers
        cases hdone
        rcases List.mem_cons.1 hmem with rfl | hmem
        · have hwhole : (Script.peek >>= fun _ => Grammar.externalDeclaration).run (runAt depth) s =
              (.ok (.function function), v) := by
            change (Script.peek.bind fun _ => Grammar.externalDeclaration).run _ _ = _
            rw [Script.run_bind, hpeek]
            exact hfirst
          obtain ⟨specifiers, d, x, hdefines, hfunction⟩ := DefinesFunction.of_run hreaches hwhole
          exact ⟨depth, specifiers, d, x, v, hdefines, hfunction⟩
        · -- The rule calls itself for what stands behind.
          rw [Script.run_rule] at hlist
          refine ih hmem (hreaches.trans (.call (.rest hpeek ?_))) hlist
          rw [if_neg hend]
          exact .rest hfirst (.front .self)

theorem exists_function_of_parse {name : Option String} {unit : TranslationUnit}
    {function : FunctionDefinition} (h : parse text name = .ok unit)
    (hmem : function ∈ unit.functions) :
    ∃ depth specifiers d s t, DefinesFunction text name depth specifiers d s ∧
      (Grammar.functionDefinition specifiers d).run (runAt depth) s = (.ok function, t) := by
  obtain ⟨t, hrun⟩ := runUnit_of_parse h
  obtain ⟨declaration, hdeclaration, hfunction⟩ := List.mem_filterMap.1 hmem
  cases declaration with
  | declaration group => cases hfunction
  | function other =>
      cases hfunction
      exact exists_definesFunction hdeclaration Script.Reaches.self hrun

/-! ## The body -/

/-- What happens in a body happens inside the function: its block is not left, and what has been
declared since can be told from what has happened. -/
theorem since_of_body {names : List String} {front back : List Event} {r : Request}
    {x : ParserState} (hs : s.table = T.inFile file) (hT : T.InBlock) (hsince : T.Since names [])
    (htrace : eventsAt depth .blockItems s = front ++ .requested r x :: back) :
    ∃ U : SymbolTable, x.table = U.inFile file ∧ U.Since names front := by
  have htells : (inFunction file).Tells [] s T := hs
  have hplace : (nesting true).pre .blockItems T := fun _ => hT
  -- Inside the function, the requests act on a table of its own that is put in front of the file
  -- scope.
  have hheeds : (nesting true).Heeds (inFunction file) (eventsAt depth .blockItems s) :=
    (Contract.along (valid_nesting true) htells hplace (follows_inFunction file _)).1
  have hlinked : Linked s front x := Linked.before (htrace ▸ linked_eventsAt depth .blockItems s)
  refine hlinked.invariant (motive := fun es x =>
    ∃ U : SymbolTable, x.table = U.inFile file ∧ U.Since names es) ?requested ?returned
      ⟨T, hs, hsince⟩
  case requested =>
    rintro es r x hmem ⟨U, hU, hsince⟩
    have hinside : Event.requested r x ∈ eventsAt depth .blockItems s := by
      rw [htrace]
      exact List.mem_append_left _ hmem
    obtain ⟨fs, V, hV, may⟩ := hheeds r x hinside
    obtain rfl : V = U := SymbolTable.inFile_injective (Eq.trans (Eq.symm hV) hU)
    rcases hperform : r.perform x with ⟨error | answer, y⟩
    · -- A request that fails leaves the table as it is.
      refine ⟨V, (Request.table_perform_of_error hperform).trans hU, ?_⟩
      exact hsince.mono (List.subset_append_left _ _)
    · obtain ⟨W, hstep, hW⟩ :=
        follows_inFunction file _ r x hinside fs V hV may answer y hperform
      exact ⟨W, hW, hsince.step hstep⟩
  case returned =>
    rintro es x f result ⟨U, hU, hsince⟩
    exact ⟨U, hU, hsince.mono (List.subset_append_left _ _)⟩

/-- In every function of a unit that is read, the names of the parameters hide all other words from
the start of the body: there each of them is ordinary, and so is the name of the function, while
all other words mean what they meant in front of the function.  Wherever the parser stands in the
body, the name of a parameter is ordinary or a type that it was declared for before, in the body. -/
theorem parameters_hide {name : Option String} {unit : TranslationUnit}
    {function : FunctionDefinition} (h : parse text name = .ok unit)
    (hmem : function ∈ unit.functions) :
    ∃ depth specifiers d s u v, DefinesFunction text name depth specifiers d s ∧
      d.parameters? = some function.parameters ∧
      (Grammar.bodyHead function.name function.parameters).run (runAt depth) s = (.ok (), u) ∧
      runAt depth .blockItems u = (.ok function.body, v) ∧
      (∀ word, u.table.lookup? word =
        if word = function.name ∨ ∃ p ∈ function.parameters, p.name = some word then some .ordinary
        else s.table.lookup? word) ∧
      ∀ front r x back, eventsAt depth .blockItems u = front ++ .requested r x :: back →
        ∀ p ∈ function.parameters, ∀ word, p.name = some word →
          x.table.lookup? word = some .ordinary ∨ ∃ type y,
            x.table.lookup? word = some (.typeName type) ∧
              .requested (.declare word (.typeName type)) y ∈ front := by
  obtain ⟨depth, specifiers, d, s, t, hdefines, hrun⟩ := exists_function_of_parse h hmem
  obtain ⟨hparameters, u, v, hhead, hbody⟩ := Grammar.exists_body hrun
  obtain ⟨htidy, houter⟩ := hdefines.tidy
  have hinside : s.table.InBlock := SymbolTable.inBlock_of_nested_eq_nil houter
  obtain ⟨-, R, htable⟩ := (Contract.sound_script (valid_nesting true) models_nesting htidy
    (Grammar.meets_bodyHead hinside)).2 _ _ hhead
  have hdeclared : (s.table.declare function.name .ordinary).nested = [] :=
    (SymbolTable.frame_declare hinside function.name .ordinary).nested_eq_nil houter
  refine ⟨depth, specifiers, d, s, u, v, hdefines, hparameters, hhead, hbody, ?start, ?inside⟩
  case start =>
    intro word
    rw [htable, SymbolTable.lookup?_declareNames, SymbolTable.lookup?_enter,
      SymbolTable.lookup?_declare]
    by_cases hword : word = function.name
    · simp [hword]
    · simp [hword, Ne.symm hword]
  case inside =>
    intro front r x back htrace p hp word hword
    rw [SymbolTable.enter_block_of_nested_eq_nil hdeclared, SymbolTable.declareNames_inFile] at htable
    have hblock := SymbolTable.inBlock_of_nested_eq_nil
      (SymbolTable.nested_declareNames (T := SymbolTable.empty) rfl function.parameters)
    obtain ⟨U, hx, hU⟩ :=
      since_of_body htable hblock (SymbolTable.Since.parameters function.parameters) htrace
    rw [hx]
    exact hU.lookup? (List.mem_filterMap.2 ⟨p, hp, hword⟩)

/-- A parameter takes the name of a type, which is an ordinary word then where the body begins. -/
theorem parameters_hide_type : ∃ unit function depth u v,
    parse "typedef int t; void f(int t) { t = 1; }" none = .ok unit ∧ function ∈ unit.functions ∧
      runAt depth .blockItems u = (.ok function.body, v) ∧
        u.table.lookup? "t" = some .ordinary := by
  have hreads : (parse "typedef int t; void f(int t) { t = 1; }" none).toOption.any (fun unit =>
      unit.functions.any fun function => function.parameters.any (·.name = some "t")) = true := by
    decide +kernel
  rcases hparse : parse "typedef int t; void f(int t) { t = 1; }" none with error | unit
  · simp [hparse, Except.toOption] at hreads
  · simp only [hparse, Except.toOption, Option.any_some] at hreads
    obtain ⟨function, hmem, hparameter⟩ := List.any_eq_true.1 hreads
    obtain ⟨p, hp, hname⟩ := List.any_eq_true.1 hparameter
    obtain ⟨depth, _, _, _, u, v, -, -, -, hbody, hstart, -⟩ := parameters_hide hparse hmem
    have hordinary := hstart "t"
    rw [if_pos (Or.inr ⟨p, hp, of_decide_eq_true hname⟩)] at hordinary
    exact ⟨unit, function, depth, u, v, rfl, hmem, hbody, hordinary⟩

end Parser

/-- Whether the body is one declaration, based on a type of the name. -/
def FunctionDefinition.declaresAs (function : FunctionDefinition) (name : String) : Bool :=
  match function.body with
  | [.declaration _ group] => group.base = .named name
  | _ => false

namespace Parser

/-- The type of a parameter lists a constant that takes the name of a type.  The constant is lost
with the list: in the body the word is the type again, and what would be a product is read as a
declaration. -/
theorem constants_of_parameters_lost : ∃ unit function position group,
    parse "typedef int A; void f(enum { A } x) { A * x; }" none = .ok unit ∧
      function ∈ unit.functions ∧ (∃ p ∈ function.parameters, "A" ∈ p.type.constants) ∧
      function.body = [.declaration position group] ∧ group.base = .named "A" := by
  have hreads : (parse "typedef int A; void f(enum { A } x) { A * x; }" none).toOption.any
      (fun unit => unit.functions.any fun function =>
        function.parameters.any (fun p => "A" ∈ p.type.constants) &&
          function.declaresAs "A") = true := by decide +kernel
  rcases hparse : parse "typedef int A; void f(enum { A } x) { A * x; }" none with error | unit
  · simp [hparse, Except.toOption] at hreads
  · simp only [hparse, Except.toOption, Option.any_some] at hreads
    obtain ⟨function, hmem, hboth⟩ := List.any_eq_true.1 hreads
    obtain ⟨hparameters, hbody⟩ := Bool.and_eq_true_iff.1 hboth
    obtain ⟨p, hp, hconstant⟩ := List.any_eq_true.1 hparameters
    unfold FunctionDefinition.declaresAs at hbody
    split at hbody
    · rename_i position group hitems
      exact ⟨unit, function, position, group, rfl, hmem, ⟨p, hp, of_decide_eq_true hconstant⟩,
        hitems, of_decide_eq_true hbody⟩
    · cases hbody

end Parser

end CSyntax
