import CSyntax.Tree.Describe
import CSyntax.Proofs.Tree.WellFormed

/-!
# Description — what the description of a type tells

A description stands its parts behind each other without brackets, separates parameters by commas
alone, and is made of words that a program may use for its own types: `pointer` may be the name of
one.  It can be read in one way only.  This file proves:

* `Outline` — a type without the sizes of its arrays, its members and its enumerators;
* `Describable` — the types whose names a program can have;
* `Bounds`, `Uncut` — what may follow a part, and text that is told from it;
* `form_eq`, `UniquelyRead` — a text begins with one description at most, if a bound follows;
* `describe_eq_iff` — descriptions are the same exactly where outlines are.
-/

namespace CSyntax

/-! ## Outlines -/

/-- A type up to array sizes, members and enumerators. -/
inductive Outline where
  | named (name : String)
  | pointer (target : Outline)
  | array (element : Outline) (sized : Bool)
  | function (result : Outline) (parameters : List Outline) (variadic : Bool)
  | record (kind : RecordKind) (tag : Option String)
  | enumeration (tag : Option String)

namespace CType

mutual

def outline : CType → Outline
  | .named name => .named name
  | .pointer target => .pointer target.outline
  | .array element size => .array element.outline size.isSome
  | .function result parameters variadic =>
      .function result.outline (outlineAll parameters) variadic
  | .record kind tag _ => .record kind tag
  | .enumeration tag _ => .enumeration tag

def outlineAll : List CType → List Outline
  | [] => []
  | type :: types => type.outline :: outlineAll types

end

/-- The names that an outline tells are those of arithmetic types and identifiers. -/
inductive Describable : CType → Prop
  | named {name : String} :
      name ∈ ArithmeticType.spellings ∨ Identifier name → Describable (.named name)
  | pointer {target : CType} :
      Describable target → Describable (.pointer target)
  | array {element : CType} {size : Option Expr} :
      Describable element → Describable (.array element size)
  | function {result : CType} {parameters : List CType} {variadic : Bool} :
      Describable result → (∀ type ∈ parameters, Describable type) →
      Describable (.function result parameters variadic)
  | record {kind : RecordKind} {tag : Option String} {members : Option (List Member)} :
      (∀ name ∈ tag, Identifier name) → Describable (.record kind tag members)
  | enumeration {tag : Option String} {enumerators : Option (List Enumerator)} :
      (∀ name ∈ tag, Identifier name) → Describable (.enumeration tag enumerators)

end CType

/-! ## What follows a description -/

/-- The text ends, or goes on with a comma or a closing parenthesis. -/
def Bounds (rest : List Char) : Prop :=
  ∀ c ∈ rest.head?, c = ',' ∨ c = ')'

/-- Text without commas and closing parentheses. -/
def Uncut (text : List Char) : Prop :=
  ∀ c ∈ text, c ≠ ',' ∧ c ≠ ')'

instance {text : List Char} : Decidable (Uncut text) :=
  List.decidableBAll _ text

section

variable {front front' rest rest' : List Char}

theorem bounds_nil : Bounds [] := by
  simp [Bounds]

/-- A bound does not begin with uncut text. -/
theorem Bounds.eq_nil {excess : List Char} (h : Bounds (excess ++ rest))
    (hexcess : Uncut excess) : excess = [] := by
  cases excess with
  | nil => rfl
  | cons c excess =>
      obtain ⟨hcomma, hparenthesis⟩ := hexcess c List.mem_cons_self
      exact ((h c rfl).elim hcomma hparenthesis).elim

/-- Uncut text is told from what follows it. -/
theorem Bounds.append_inj (h : Bounds rest) (h' : Bounds rest') (hfront : Uncut front)
    (hfront' : Uncut front') (heq : front ++ rest = front' ++ rest') :
    front = front' ∧ rest = rest' := by
  rcases List.append_eq_append_iff.1 heq with ⟨excess, rfl, rfl⟩ | ⟨excess, rfl, rfl⟩
  · obtain rfl := h.eq_nil fun c hc => hfront' c (List.mem_append_right _ hc)
    simp
  · obtain rfl := h'.eq_nil fun c hc => hfront c (List.mem_append_right _ hc)
    simp

/-- Uncut text does not reach beyond a bound. -/
theorem Bounds.prefix_of_append (h : Bounds rest) (hfront : Uncut front)
    (hpre : front <+: front' ++ rest) : front <+: front' := by
  obtain ⟨after, heq⟩ := hpre
  rcases List.append_eq_append_iff.1 heq with ⟨excess, rfl, -⟩ | ⟨excess, rfl, rfl⟩
  · exact List.prefix_append _ _
  · obtain rfl := h.eq_nil fun c hc => hfront c (List.mem_append_right _ hc)
    simp

end

/-! ## Names in a description -/

namespace Identifier

variable {name : String}

theorem isWordPart (h : Identifier name) : ∀ c ∈ name.toList, Lexeme.isWordPart c = true := by
  obtain ⟨⟨c, cs, hname, hc, hcs⟩, -⟩ := h
  rw [hname]
  intro d hd
  rcases List.mem_cons.1 hd with rfl | hd
  · simp [Lexeme.isWordPart, hc]
  · exact hcs d hd

theorem not_mem (h : Identifier name) {c : Char} (hc : Lexeme.isWordPart c = false) :
    c ∉ name.toList := by
  intro hmem
  rw [h.isWordPart c hmem] at hc
  cases hc

end Identifier

namespace CType

theorem uncut_tagText {tag : Option String} (h : ∀ name ∈ tag, Identifier name) :
    Uncut (tagText tag).toList := by
  cases tag with
  | none => decide
  | some name =>
      intro c hc
      constructor
      · rintro rfl
        exact (h name rfl).not_mem (by decide) hc
      · rintro rfl
        exact (h name rfl).not_mem (by decide) hc

/-- The word for a missing tag is no tag. -/
theorem tagText_inj {tag tag' : Option String} (h : ∀ name ∈ tag, Identifier name)
    (h' : ∀ name ∈ tag', Identifier name) (heq : tagText tag = tagText tag') : tag = tag' := by
  have hmissing : ∀ name, Identifier name → name ≠ "<anonymous>" := by
    rintro name hname rfl
    exact hname.not_mem (c := '<') (by decide) (by decide)
  cases tag with
  | none =>
      cases tag' with
      | none => rfl
      | some name => exact (hmissing name (h' name rfl) heq.symm).elim
  | some name =>
      cases tag' with
      | none => exact (hmissing name (h name rfl) heq).elim
      | some other => exact congrArg some heq

theorem uncut_named {name : String} (h : (CType.named name).Describable) :
    Uncut name.toList := by
  cases h with
  | named h =>
      rcases h with h | h
      · have hall : ∀ name ∈ ArithmeticType.spellings, Uncut name.toList := by
          decide
        exact hall name h
      · have htag : ∀ tag ∈ some name, Identifier tag := by
          rintro _ ⟨⟩
          exact h
        exact uncut_tagText htag

/-! ## How a description begins -/

/-- What a description begins with: a name, or one of six fixed texts. -/
inductive Form where
  | name
  | pointer
  | array
  | function
  | record (kind : RecordKind)
  | enumeration

def Form.opening : Form → String
  | .name => ""
  | .pointer => "pointer to "
  | .array => "array of "
  | .function => "function("
  | .record kind => kind.spelling ++ " "
  | .enumeration => "enum "

def form : CType → Form
  | .named _ => .name
  | .pointer _ => .pointer
  | .array _ _ => .array
  | .function _ _ _ => .function
  | .record kind _ _ => .record kind
  | .enumeration _ _ => .enumeration

section

variable {target element result : CType}

theorem describe_pointer : (pointer target).describe = "pointer to " ++ target.describe :=
  rfl

theorem describe_array {size : Option Expr} : (array element size).describe =
    "array of " ++ ((if size.isSome then "" else "unknown size of ") ++ element.describe) := by
  cases size with
  | none =>
      show "array of unknown size of " ++ element.describe = _
      simp [← String.toList_inj]
  | some size =>
      show "array of " ++ element.describe = _
      simp

theorem describe_function {parameters : List CType} {variadic : Bool} :
    (function result parameters variadic).describe =
      "function(" ++ ", ".intercalate (describeAll parameters ++ if variadic then ["..."] else []) ++
        ") returning " ++ result.describe :=
  rfl

theorem describe_record {kind : RecordKind} {tag : Option String}
    {members : Option (List Member)} :
    (record kind tag members).describe = kind.spelling ++ " " ++ tagText tag :=
  rfl

theorem describe_enumeration {tag : Option String} {enumerators : Option (List Enumerator)} :
    (enumeration tag enumerators).describe = "enum " ++ tagText tag :=
  rfl

end

theorem begins_opening (type : CType) : type.form.opening.toList <+: type.describe.toList := by
  cases type with
  | named name => exact List.nil_prefix
  | pointer target =>
      rw [describe_pointer, String.toList_append]
      exact List.prefix_append _ _
  | array element size =>
      rw [describe_array, String.toList_append]
      exact List.prefix_append _ _
  | function result parameters variadic =>
      simp only [describe_function, String.toList_append, List.append_assoc]
      exact List.prefix_append _ _
  | record kind tag members =>
      rw [describe_record, String.toList_append, String.toList_append, form, Form.opening,
        String.toList_append]
      exact List.prefix_append _ _
  | enumeration tag enumerators =>
      rw [describe_enumeration, String.toList_append]
      exact List.prefix_append _ _

theorem Form.opening_inj {f g : Form} (hf : f ≠ .name) (hg : g ≠ .name) {text : List Char}
    (h : f.opening.toList <+: text) (h' : g.opening.toList <+: text) : f = g := by
  have hboth := List.prefix_or_prefix_of_prefix h h'
  rcases f with _ | _ | _ | _ | (_ | _) | _ <;> rcases g with _ | _ | _ | _ | (_ | _) | _ <;>
    first | rfl | exact absurd rfl hf | exact absurd rfl hg | exact absurd hboth (by decide)

/-- A name does not begin with text that has more in it than word characters, unless the spelling of
an arithmetic type does. -/
theorem not_prefix_named {name : String} {text : List Char} (h : (CType.named name).Describable)
    (hmark : text.all Lexeme.isWordPart = false)
    (hspellings : ∀ name ∈ ArithmeticType.spellings, ¬ text <+: name.toList) :
    ¬ text <+: name.toList := by
  cases h with
  | named h =>
      rcases h with h | h
      · exact hspellings name h
      · intro hbegins
        obtain ⟨c, hc, hword⟩ := List.all_eq_false.1 hmark
        exact hword (h.isWordPart c (hbegins.subset hc))

theorem not_begins_opening_named {name : String} {f : Form} (h : (CType.named name).Describable)
    (hf : f ≠ .name) : ¬ f.opening.toList <+: name.toList := by
  rcases f with _ | _ | _ | _ | (_ | _) | _
  all_goals first | exact absurd rfl hf | exact not_prefix_named h (by decide) (by decide)

/-- The form of a type is told from any text that begins with its description. -/
theorem form_eq {a b : CType} {rest rest' : List Char} (ha : a.Describable) (hb : b.Describable)
    (hrest : Bounds rest) (hrest' : Bounds rest')
    (h : a.describe.toList ++ rest = b.describe.toList ++ rest') : a.form = b.form := by
  have huncut : ∀ f : Form, Uncut f.opening.toList := by
    rintro (_ | _ | _ | _ | (_ | _) | _) <;> decide
  have hname : ∀ {a b : CType} {rest rest' : List Char}, a.Describable → Bounds rest →
      a.describe.toList ++ rest = b.describe.toList ++ rest' → a.form = .name → b.form = .name := by
    intro a b rest rest' ha hrest h hform
    by_contra hb
    cases a with
    | named name =>
        refine not_begins_opening_named ha hb (hrest.prefix_of_append (huncut _) ?_)
        exact h ▸ b.begins_opening.trans (List.prefix_append _ _)
    | _ => cases hform
  by_cases hform : a.form = .name
  · rw [hform, hname ha hrest h hform]
  · have hform' : b.form ≠ .name := fun hb' => hform (hname hb hrest' h.symm hb')
    exact Form.opening_inj hform hform' (a.begins_opening.trans (List.prefix_append _ _))
      (h ▸ b.begins_opening.trans (List.prefix_append _ _))

/-- The words for a missing size are not the beginning of an element type. -/
theorem not_begins_unknown {a : CType} {rest : List Char} (ha : a.Describable)
    (hrest : Bounds rest) : ¬ "unknown size of ".toList <+: a.describe.toList ++ rest := by
  intro hbegins
  by_cases hform : a.form = .name
  · cases a with
    | named name =>
        exact not_prefix_named ha (by decide) (by decide)
          (hrest.prefix_of_append (by decide) hbegins)
    | _ => cases hform
  · have hboth := List.prefix_or_prefix_of_prefix hbegins
      (a.begins_opening.trans (List.prefix_append _ _))
    generalize a.form = f at hform hboth
    rcases f with _ | _ | _ | _ | (_ | _) | _
    all_goals first | exact absurd rfl hform | exact absurd hboth (by decide)

/-- A description begins with a letter or an underscore. -/
theorem exists_describe_eq_cons {type : CType} (h : type.Describable) :
    ∃ c cs, type.describe.toList = c :: cs ∧ Lexeme.isWordStart c = true := by
  by_cases hform : type.form = .name
  · cases type with
    | named name =>
        cases h with
        | named h =>
            rcases h with h | h
            · have hall : ∀ name ∈ ArithmeticType.spellings,
                  (name.toList.head?.any Lexeme.isWordStart) = true := by
                decide
              have hhead := hall name h
              cases hname : name.toList with
              | nil => simp [hname] at hhead
              | cons c cs => exact ⟨c, cs, hname, by simpa [hname] using hhead⟩
            · obtain ⟨⟨c, cs, hname, hc, -⟩, -⟩ := h
              exact ⟨c, cs, hname, hc⟩
    | _ => cases hform
  · -- All forms but that of a name begin with a word of their own.
    have hopening : ∀ f : Form, f ≠ .name →
        ∃ c cs, f.opening.toList = c :: cs ∧ Lexeme.isWordStart c = true := by
      rintro (_ | _ | _ | _ | (_ | _) | _) hf
      all_goals first | exact absurd rfl hf | exact ⟨_, _, rfl, by decide⟩
    obtain ⟨c, cs, hcons, hc⟩ := hopening type.form hform
    obtain ⟨rest, hrest⟩ := type.begins_opening
    exact ⟨c, cs ++ rest, by rw [← hrest, hcons, List.cons_append], hc⟩

/-! ## Parameter lists -/

/-- What stands between the parentheses of a function. -/
def parameterList (parameters : List CType) (variadic : Bool) : List Char :=
  (", ".intercalate (describeAll parameters ++ if variadic then ["..."] else [])).toList

/-- The same with a separator in front of the first part too, if there is one. -/
def parameterText (parameters : List CType) (variadic : Bool) : List Char :=
  (parameters.flatMap fun type => ',' :: ' ' :: type.describe.toList) ++
    if variadic then [',', ' ', '.', '.', '.'] else []

theorem separator_append_parameterList {parameters : List CType} {variadic : Bool}
    (h : parameters ≠ [] ∨ variadic = true) :
    ',' :: ' ' :: parameterList parameters variadic = parameterText parameters variadic := by
  induction parameters with
  | nil =>
      obtain rfl : variadic = true := by simpa using h
      rfl
  | cons type types ih =>
      have htype : parameterText (type :: types) variadic =
          ',' :: ' ' :: (type.describe.toList ++ parameterText types variadic) := by
        simp [parameterText]
      rw [htype, parameterList, describeAll, List.cons_append]
      -- A separator stands behind the type just if something follows in the list.
      by_cases hmore : types ≠ [] ∨ variadic = true
      · have hne : (describeAll types ++ if variadic then ["..."] else []) ≠ [] := by
          rw [describeAll_eq_map]
          simpa [imp_iff_not_or] using hmore
        rw [String.intercalate_cons_of_ne_nil hne, String.toList_append, String.toList_append,
          ← ih hmore, List.append_assoc]
        rfl
      · obtain ⟨rfl, rfl⟩ : types = [] ∧ variadic = false := by simpa using hmore
        simp [describeAll, parameterText]

/-- Of the type's description and what follows it, a text tells both. -/
def UniquelyRead (a : CType) : Prop :=
  ∀ {b : CType} {rest rest' : List Char}, b.Describable → Bounds rest → Bounds rest' →
    a.describe.toList ++ rest = b.describe.toList ++ rest' → a.outline = b.outline ∧ rest = rest'

section

variable {parameters others : List CType} {variadic variadic' : Bool} {rest rest' : List Char}

/-- What stands in front of a closing parenthesis begins with a comma, if it is not empty. -/
theorem bounds_parameterText : Bounds (parameterText parameters variadic ++ ')' :: rest) := by
  cases parameters with
  | nil => cases variadic <;> simp [parameterText, Bounds]
  | cons type types => simp [parameterText, Bounds]

/-- A parameter is no ellipsis and no closing parenthesis. -/
theorem parameterText_nil_ne_cons {type : CType} {types : List CType} (h : type.Describable) :
    parameterText [] variadic ++ ')' :: rest ≠
      parameterText (type :: types) variadic' ++ ')' :: rest' := by
  obtain ⟨c, cs, hcons, hc⟩ := exists_describe_eq_cons h
  intro heq
  cases variadic with
  | false => simp [parameterText] at heq
  | true =>
      have hdot : '.' = c := by
        simp [parameterText, hcons] at heq
        exact heq.1
      subst hdot
      exact absurd hc (by decide)

theorem parameterText_unique (h : ∀ type ∈ parameters, type.UniquelyRead)
    (hparameters : ∀ type ∈ parameters, type.Describable)
    (hothers : ∀ type ∈ others, type.Describable)
    (heq : parameterText parameters variadic ++ ')' :: rest =
      parameterText others variadic' ++ ')' :: rest') :
    outlineAll parameters = outlineAll others ∧ variadic = variadic' ∧ rest = rest' := by
  -- A list is longer than another just if a separator stands where the other is closed.
  induction parameters generalizing others with
  | nil =>
      cases others with
      | nil =>
          cases variadic <;> cases variadic' <;> simp [parameterText] at heq ⊢
          · exact heq
          · exact heq
      | cons other others =>
          exact (parameterText_nil_ne_cons (hothers other List.mem_cons_self) heq).elim
  | cons type types ih =>
      cases others with
      | nil =>
          exact (parameterText_nil_ne_cons (hparameters type List.mem_cons_self) heq.symm).elim
      | cons other others =>
          have hcons : type.describe.toList ++ (parameterText types variadic ++ ')' :: rest) =
              other.describe.toList ++ (parameterText others variadic' ++ ')' :: rest') := by
            simpa [parameterText] using heq
          obtain ⟨hfirst, hmore⟩ := h type List.mem_cons_self
            (hothers other List.mem_cons_self) bounds_parameterText bounds_parameterText hcons
          obtain ⟨htypes, hvariadic, hrest⟩ :=
            ih (fun type htype => h type (List.mem_cons_of_mem _ htype))
              (fun type htype => hparameters type (List.mem_cons_of_mem _ htype))
              (fun type htype => hothers type (List.mem_cons_of_mem _ htype)) hmore
          exact ⟨by rw [outlineAll, outlineAll, hfirst, htypes], hvariadic, hrest⟩

/-- Parentheses with something between them do not close at once. -/
theorem parameterList_ne_parenthesis (h : parameters ≠ [] ∨ variadic = true)
    (hparameters : ∀ type ∈ parameters, type.Describable) :
    parameterList parameters variadic ++ rest ≠ ')' :: rest' := by
  intro heq
  have htext : parameterText parameters variadic ++ rest = ',' :: ' ' :: ')' :: rest' := by
    rw [← separator_append_parameterList h, List.cons_append, List.cons_append, heq]
  cases parameters with
  | nil =>
      obtain rfl : variadic = true := by simpa using h
      simp [parameterText] at htext
  | cons type types =>
      obtain ⟨c, cs, hcons, hc⟩ := exists_describe_eq_cons (hparameters type List.mem_cons_self)
      obtain rfl : c = ')' := by
        simp [parameterText, hcons] at htext
        exact htext.1
      exact absurd hc (by decide)

theorem parameterList_unique (h : ∀ type ∈ parameters, type.UniquelyRead)
    (hparameters : ∀ type ∈ parameters, type.Describable)
    (hothers : ∀ type ∈ others, type.Describable)
    (heq : parameterList parameters variadic ++ ')' :: rest =
      parameterList others variadic' ++ ')' :: rest') :
    outlineAll parameters = outlineAll others ∧ variadic = variadic' ∧ rest = rest' := by
  by_cases hne : parameters ≠ [] ∨ variadic = true
  · by_cases hne' : others ≠ [] ∨ variadic' = true
    · refine parameterText_unique h hparameters hothers ?_
      rw [← separator_append_parameterList hne, ← separator_append_parameterList hne']
      simp only [List.cons_append, heq]
    · obtain ⟨rfl, rfl⟩ : others = [] ∧ variadic' = false := by simpa using hne'
      exact (parameterList_ne_parenthesis hne hparameters heq).elim
  · obtain ⟨rfl, rfl⟩ : parameters = [] ∧ variadic = false := by simpa using hne
    by_cases hne' : others ≠ [] ∨ variadic' = true
    · exact (parameterList_ne_parenthesis hne' hothers heq.symm).elim
    · obtain ⟨rfl, rfl⟩ : others = [] ∧ variadic' = false := by simpa using hne'
      exact ⟨rfl, rfl, (List.cons.inj heq).2⟩

end

/-! ## Descriptions are unambiguous -/

section

variable {element target result : CType} {parameters : List CType} {tag tag' : Option String}
  {rest rest' : List Char}

/-- Only types of the same form have to be told apart. -/
theorem UniquelyRead.of_form {a : CType} (ha : a.Describable)
    (h : ∀ {b : CType} {rest rest' : List Char}, b.Describable → a.form = b.form → Bounds rest →
      Bounds rest' → a.describe.toList ++ rest = b.describe.toList ++ rest' →
      a.outline = b.outline ∧ rest = rest') : a.UniquelyRead :=
  fun hb hrest hrest' heq => h hb (form_eq ha hb hrest hrest' heq) hrest hrest' heq

theorem uniquelyRead_named {name : String} (h : (named name).Describable) :
    (named name).UniquelyRead := by
  refine UniquelyRead.of_form h fun hb hform hrest hrest' heq => ?_
  cases hb with
  | named hname' =>
      obtain ⟨hnames, hafter⟩ := hrest.append_inj hrest' (uncut_named h)
        (uncut_named (.named hname')) heq
      exact ⟨congrArg Outline.named (String.toList_inj.1 hnames), hafter⟩
  | _ => cases hform

theorem uniquelyRead_pointer (htarget : target.Describable) (h : target.UniquelyRead) :
    (pointer target).UniquelyRead := by
  refine UniquelyRead.of_form (.pointer htarget) fun hb hform hrest hrest' heq => ?_
  cases hb with
  | pointer htarget' =>
      rw [describe_pointer, describe_pointer] at heq
      simp only [String.toList_append, List.append_assoc] at heq
      obtain ⟨htarget, hafter⟩ := h htarget' hrest hrest' (List.append_cancel_left heq)
      exact ⟨by rw [outline, outline, htarget], hafter⟩
  | _ => cases hform

theorem uniquelyRead_array {size : Option Expr} (helement : element.Describable)
    (h : element.UniquelyRead) : (array element size).UniquelyRead := by
  refine UniquelyRead.of_form (.array helement) fun hb hform hrest hrest' heq => ?_
  cases hb with
  | @array element' size' helement' =>
      rw [describe_array, describe_array] at heq
      simp only [String.toList_append, List.append_assoc] at heq
      have hsizes := List.append_cancel_left heq
      -- Either both have the words for a missing size in front, or neither has.
      have hsize : size.isSome = size'.isSome := by
        cases size <;> cases size'
        · rfl
        · exact (not_begins_unknown helement' hrest' ⟨_, hsizes⟩).elim
        · exact (not_begins_unknown helement hrest ⟨_, hsizes.symm⟩).elim
        · rfl
      rw [hsize] at hsizes
      obtain ⟨helement, hafter⟩ := h helement' hrest hrest' (List.append_cancel_left hsizes)
      exact ⟨by rw [outline, outline, helement, hsize], hafter⟩
  | _ => cases hform

/-- The result is described behind the parentheses, so the parameters are told first. -/
theorem uniquelyRead_function {variadic : Bool} (hresult : result.Describable)
    (hparameters : ∀ type ∈ parameters, type.Describable) (h : result.UniquelyRead)
    (hall : ∀ type ∈ parameters, type.UniquelyRead) :
    (function result parameters variadic).UniquelyRead := by
  refine UniquelyRead.of_form (.function hresult hparameters) fun hb hform hrest hrest' heq => ?_
  cases hb with
  | function hresult' hparameters' =>
      rw [describe_function, describe_function] at heq
      simp only [String.toList_append, List.append_assoc] at heq
      obtain ⟨hlist, rfl, hreturns⟩ := parameterList_unique hall hparameters hparameters'
        (List.append_cancel_left heq)
      obtain ⟨hresult, hafter⟩ := h hresult' hrest hrest' (List.append_cancel_left hreturns)
      exact ⟨by rw [outline, outline, hresult, hlist], hafter⟩
  | _ => cases hform

theorem tagText_unique (htag : ∀ name ∈ tag, Identifier name)
    (htag' : ∀ name ∈ tag', Identifier name) (hrest : Bounds rest) (hrest' : Bounds rest')
    (heq : (tagText tag).toList ++ rest = (tagText tag').toList ++ rest') :
    tag = tag' ∧ rest = rest' := by
  obtain ⟨htags, hafter⟩ :=
    hrest.append_inj hrest' (uncut_tagText htag) (uncut_tagText htag') heq
  exact ⟨tagText_inj htag htag' (String.toList_inj.1 htags), hafter⟩

theorem uniquelyRead_record {kind : RecordKind} {members : Option (List Member)}
    (htag : ∀ name ∈ tag, Identifier name) : (record kind tag members).UniquelyRead := by
  refine UniquelyRead.of_form (.record htag) fun hb hform hrest hrest' heq => ?_
  cases hb with
  | record htag' =>
      obtain rfl := Form.record.inj hform
      rw [describe_record, describe_record] at heq
      simp only [String.toList_append, List.append_assoc] at heq
      obtain ⟨rfl, hafter⟩ := tagText_unique htag htag' hrest hrest'
        (List.append_cancel_left (List.append_cancel_left heq))
      exact ⟨by rw [outline, outline], hafter⟩
  | _ => cases hform

theorem uniquelyRead_enumeration {enumerators : Option (List Enumerator)}
    (htag : ∀ name ∈ tag, Identifier name) : (enumeration tag enumerators).UniquelyRead := by
  refine UniquelyRead.of_form (.enumeration htag) fun hb hform hrest hrest' heq => ?_
  cases hb with
  | enumeration htag' =>
      rw [describe_enumeration, describe_enumeration] at heq
      simp only [String.toList_append, List.append_assoc] at heq
      obtain ⟨rfl, hafter⟩ := tagText_unique htag htag' hrest hrest' (List.append_cancel_left heq)
      exact ⟨by rw [outline, outline], hafter⟩
  | _ => cases hform

end

/-- What follows a part is what the whole has behind it, so the bounds that the induction asks for
are a separator, the parenthesis of a parameter list, or the bound given. -/
theorem Describable.uniquelyRead {a : CType} (ha : a.Describable) : a.UniquelyRead := by
  induction ha with
  | named hname => exact uniquelyRead_named (.named hname)
  | pointer htarget ih => exact uniquelyRead_pointer htarget ih
  | array helement ih => exact uniquelyRead_array helement ih
  | function hresult hparameters ih ihs => exact uniquelyRead_function hresult hparameters ih ihs
  | record htag => exact uniquelyRead_record htag
  | enumeration htag => exact uniquelyRead_enumeration htag

theorem describeAll_eq_of_outlineAll {types others : List CType}
    (h : ∀ type ∈ types, ∀ b : CType, type.outline = b.outline → type.describe = b.describe)
    (hall : outlineAll types = outlineAll others) : describeAll types = describeAll others := by
  induction types generalizing others with
  | nil =>
      cases others with
      | nil => rfl
      | cons other others => cases hall
  | cons type types ih =>
      cases others with
      | nil => cases hall
      | cons other others =>
          obtain ⟨hfirst, hmore⟩ := List.cons.inj hall
          rw [describeAll, describeAll, h type List.mem_cons_self other hfirst,
            ih (fun type htype => h type (List.mem_cons_of_mem _ htype)) hmore]

/-- What a description says is in the outline. -/
theorem Describable.describe_eq_of_outline {a b : CType} (ha : a.Describable)
    (h : a.outline = b.outline) : a.describe = b.describe := by
  induction ha generalizing b with
  | named hname =>
      cases b with
      | named name => exact Outline.named.inj h
      | _ => cases h
  | pointer htarget ih =>
      cases b with
      | pointer target => rw [describe_pointer, describe_pointer, ih (Outline.pointer.inj h)]
      | _ => cases h
  | array helement ih =>
      cases b with
      | array element size =>
          obtain ⟨helement, hsize⟩ := Outline.array.inj h
          rw [describe_array, describe_array, ih helement, hsize]
      | _ => cases h
  | @function result parameters variadic hresult hparameters ih ihs =>
      cases b with
      | function result' others variadic' =>
          obtain ⟨hresult, hlist, rfl⟩ := Outline.function.inj h
          have hall := describeAll_eq_of_outlineAll (fun type htype _ => ihs type htype) hlist
          rw [describe_function, describe_function, ih hresult, hall]
      | _ => cases h
  | record htag =>
      cases b with
      | record kind tag members =>
          obtain ⟨rfl, rfl⟩ := Outline.record.inj h
          rfl
      | _ => cases h
  | enumeration htag =>
      cases b with
      | enumeration tag enumerators =>
          obtain rfl := Outline.enumeration.inj h
          rfl
      | _ => cases h

/-- Types have the same description exactly where they differ in nothing but array sizes, members
and enumerators. -/
theorem describe_eq_iff {a b : CType} (ha : a.Describable) (hb : b.Describable) :
    a.describe = b.describe ↔ a.outline = b.outline := by
  constructor
  · intro h
    exact (ha.uniquelyRead hb bounds_nil bounds_nil (by rw [h])).1
  · exact ha.describe_eq_of_outline

theorem identifier_pointer : Identifier "pointer" :=
  ⟨⟨'p', "ointer".toList, by decide, by decide, List.all_eq_true.1 (by decide)⟩,
    (by decide : Keyword.ofSpelling? "pointer" = none)⟩

/-- A type by the name of `pointer` beside pointers, in functions that differ in the size of an
array and in the members of a record. -/
theorem describe_eq_iff_ofNamedPointer :
    let type (size : UInt64) (members : Option (List Member)) : CType :=
      .function (.pointer (.named "pointer"))
        [.named "pointer", .array (.pointer (.record .struct (some "pointer") members))
          (some (.integer (.start none) size))] true
    (type 3 none).Describable ∧ (type 4 (some [])).Describable ∧
      ((type 3 none).describe = (type 4 (some [])).describe ↔
        (type 3 none).outline = (type 4 (some [])).outline) := by
  intro type
  have htype : ∀ size members, (type size members).Describable := by
    intro size members
    have hname : Describable (.named "pointer") := .named (.inr identifier_pointer)
    have htag : ∀ name ∈ some "pointer", Identifier name := by
      rintro name ⟨⟩
      exact identifier_pointer
    refine .function (.pointer hname) ?_
    rintro parameter (_ | ⟨_, _ | ⟨_, ⟨⟩⟩⟩)
    · exact hname
    · exact .array (.pointer (.record htag))
  exact ⟨htype 3 none, htype 4 (some []), describe_eq_iff (htype 3 none) (htype 4 (some []))⟩

end CType
end CSyntax
