/-!
# Bindings — finite maps from words

Each word is bound at most once; binding it again replaces what it was bound to.  The word bound
last stands first.
-/

namespace CSyntax

abbrev Bindings (α : Type) := List (String × α)

namespace Bindings

variable {α : Type}

def get? (bindings : Bindings α) (name : String) : Option α :=
  (bindings.find? fun b => b.1 = name).map (·.2)

/-- Binds `name`, in place of what it was bound to before. -/
def insert (bindings : Bindings α) (name : String) (value : α) : Bindings α :=
  (name, value) :: bindings.filter fun b => b.1 ≠ name

/-- The bindings that a list of words and values makes, a later one replacing an earlier. -/
def ofList (entries : List (String × α)) : Bindings α :=
  entries.foldl (fun bindings entry => bindings.insert entry.1 entry.2) []

@[simp] theorem get?_nil (name : String) : get? ([] : Bindings α) name = none := rfl

theorem get?_insert (bindings : Bindings α) (name other : String) (value : α) :
    (bindings.insert name value).get? other =
      if name = other then some value else bindings.get? other := by
  by_cases h : name = other
  · simp [insert, get?, h]
  · simp only [insert, get?, h, decide_false, Bool.false_eq_true, not_false_eq_true,
      List.find?_cons_of_neg, if_false, List.find?_filter]
    congr 2
    funext b
    by_cases hb : b.1 = other
    · simp [hb, Ne.symm h]
    · simp [hb]

theorem mem_of_get?_ofList {entries : List (String × α)} {name : String} {value : α}
    (h : (ofList entries).get? name = some value) : (name, value) ∈ entries := by
  refine List.foldlRecOn (motive := fun bindings => get? bindings name = some value →
    (name, value) ∈ entries) entries _ (by simp) ?_ h
  intro bindings ih entry hentry hget
  rw [get?_insert] at hget
  split at hget
  · rename_i hname
    cases hget
    exact hname ▸ hentry
  · exact ih hget

end Bindings

end CSyntax
