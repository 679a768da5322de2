import CSyntax.Parser.ArithmeticType
import Mathlib.Data.List.Perm.Subperm
import Mathlib.Data.List.Sublists

/-!
# Combinations — the keywords of arithmetic types in any order

The types that keywords name are listed here with all their combinations, each in one order.  Words
name a type if they are a combination in some order (`ArithmeticType.canonical?_eq_some_iff`).

Words are looked at one after the other, and what has been read has to name a type at every step.
That refuses nothing that would become a combination later on: whatever part of a combination has
been read is a combination, too (`ArithmeticType.Names.subperm`).  And it keeps the words few, since
none is read behind words that name no type (`ArithmeticType.count_le_of_canonical?`).
-/

namespace CSyntax
namespace ArithmeticType

/-! ## The combinations -/

/-- The combinations that name an integer type of a size: a word for the sign may stand in front and
`int` behind, but some word there is. -/
def integers (size : List Keyword) (name : String) : List (List Keyword × String) :=
  let combinations : List (List Keyword × String) :=
    [(size, name), (size ++ [.int], name),
      (.signed :: size, name), (.signed :: size ++ [.int], name),
      (.unsigned :: size, "unsigned " ++ name), (.unsigned :: size ++ [.int], "unsigned " ++ name)]
  combinations.filter fun combination => combination.1 ≠ []

/-- The combinations of words that name a type, each in one order, and the types. -/
def combinations : List (List Keyword × String) :=
  [([.void], "void"), ([.char], "char"), ([.signed, .char], "signed char"),
    ([.unsigned, .char], "unsigned char"), ([.float], "float"), ([.double], "double"),
    ([.long, .double], "long double")] ++
  integers [.short] "short" ++ integers [] "int" ++ integers [.long] "long" ++
  integers [.long, .long] "long long"

/-- The words are a combination in some order. -/
def Names (words : List Keyword) (name : String) : Prop :=
  ∃ listed, (listed, name) ∈ combinations ∧ words.Perm listed

/-- Every type word, as often as a type can have it. -/
def inventory : List Keyword :=
  [.void, .char, .short, .int, .long, .long, .float, .double, .signed, .unsigned]

variable {words front others : List Keyword} {name : String}

/-! ## Words that name a type -/

/-- Only how often each word occurs counts. -/
theorem canonical?_perm (h : words.Perm others) : canonical? words = canonical? others := by
  have hcontains : ∀ k, words.contains k = others.contains k := fun k => by
    rw [Bool.eq_iff_iff, List.contains_iff_mem, List.contains_iff_mem, h.mem_iff]
  have hcount : ∀ k, words.count k = others.count k := h.count_eq
  simp only [canonical?, hcontains, hcount]

/-- A word that is repeated more often than in the inventory spoils all others. -/
theorem count_le_of_canonical? (h : (canonical? words).isSome = true) (k : Keyword)
    (hk : k.isTypeWord = true) : words.count k ≤ inventory.count k := by
  unfold canonical? at h
  dsimp only at h
  split at h
  · cases h
  · rename_i hrepeated
    simp only [Bool.or_eq_true, not_or, List.any_eq_true, decide_eq_true_eq, not_exists,
      not_and, Nat.not_lt] at hrepeated
    obtain ⟨⟨hsingle, hlong⟩, -⟩ := hrepeated
    by_cases hword : k ∈ unrepeatable
    · have hone : ∀ k ∈ unrepeatable, inventory.count k = 1 := by decide
      rw [hone k hword]
      exact hsingle k hword
    · obtain rfl : k = .long := by
        cases k <;> first | rfl | exact absurd (by decide) hword | cases hk
      exact hlong

/-- Type words that name a type are, in some order, a part of the inventory. -/
theorem exists_sublist_of_canonical? (hwords : ∀ k ∈ words, k.isTypeWord = true)
    (h : (canonical? words).isSome = true) :
    ∃ listed : List Keyword, listed.Perm words ∧ listed.Sublist inventory := by
  have hsubperm : words.Subperm inventory := by
    rw [List.subperm_ext_iff]
    exact fun k hk => count_le_of_canonical? h k (hwords k hk)
  exact hsubperm

/-- Words that name a type are a combination, and every combination names its type. -/
theorem canonical?_eq_some_iff (hwords : ∀ k ∈ words, k.isTypeWord = true) :
    canonical? words = some name ↔ Names words name := by
  constructor
  · intro h
    -- No word is repeated more often than in the inventory, so there are only its parts to look at.
    have hparts : ∀ listed ∈ inventory.sublists, ∀ name ∈ canonical? listed,
        ∃ combination ∈ combinations, combination.1.Perm listed ∧ combination.2 = name := by
      decide +kernel
    obtain ⟨listed, hperm, hsublist⟩ := exists_sublist_of_canonical? hwords (by rw [h]; rfl)
    obtain ⟨⟨combination, _⟩, hmem, hcombination, rfl⟩ :=
      hparts listed (List.mem_sublists.2 hsublist) name (by rw [canonical?_perm hperm]; exact h)
    exact ⟨combination, hmem, (hcombination.trans hperm).symm⟩
  · rintro ⟨listed, hmem, hperm⟩
    have hall : ∀ combination ∈ combinations, canonical? combination.1 = some combination.2 := by
      decide +kernel
    rw [canonical?_perm hperm]
    exact hall _ hmem

namespace Names

theorem isTypeWord (h : Names words name) : ∀ k ∈ words, k.isTypeWord = true := by
  obtain ⟨listed, hmem, hperm⟩ := h
  have hall : ∀ combination ∈ combinations, ∀ k ∈ combination.1, k.isTypeWord = true := by decide
  exact fun k hk => hall _ hmem k (hperm.mem_iff.1 hk)

theorem canonical?_eq (h : Names words name) : canonical? words = some name :=
  (canonical?_eq_some_iff h.isTypeWord).2 h

theorem perm (h : Names words name) (hperm : others.Perm words) : Names others name := by
  obtain ⟨listed, hmem, hlisted⟩ := h
  exact ⟨listed, hmem, hperm.trans hlisted⟩

/-- A part of a combination that has any words is a combination. -/
theorem subperm (h : Names words name) (hfront : front.Subperm words) (hne : front ≠ []) :
    ∃ other, Names front other := by
  have hparts : ∀ combination ∈ combinations, ∀ part ∈ combination.1.sublists, part ≠ [] →
      (canonical? part).isSome = true := by decide +kernel
  obtain ⟨listed, hmem, hperm⟩ := h
  obtain ⟨part, hpart, hsublist⟩ := hfront.trans hperm.subperm
  have hpartNe : part ≠ [] := by
    rintro rfl
    exact hne hpart.symm.eq_nil
  obtain ⟨other, hother⟩ := Option.isSome_iff_exists.1
    (hparts _ hmem part (List.mem_sublists.2 hsublist) hpartNe)
  rw [canonical?_perm hpart] at hother
  exact ⟨other, (canonical?_eq_some_iff fun k hk =>
    isTypeWord ⟨listed, hmem, hperm⟩ k (hfront.subset hk)).1 hother⟩

end Names

end ArithmeticType
end CSyntax
