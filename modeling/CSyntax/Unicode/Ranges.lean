/-!
# Ranges — classes of characters as sorted code point ranges

A property of characters is given by its maximal ranges of code points in increasing order.
Membership stops at the first range that begins past the code point, so the classes stay cheap
for the first few hundred characters, where most text lives.

The tables beside this file follow version 17.0 of the Unicode Character Database.
-/

namespace CSyntax
namespace Unicode

/-- Disjoint ranges of code points in increasing order, both ends included. -/
abbrev Ranges := List (Nat × Nat)

namespace Ranges

def contains : Ranges → Nat → Bool
  | [], _ => false
  | (first, last) :: later, n =>
      if n < first then false
      else if n ≤ last then true
      else contains later n

theorem exists_of_contains {rs : Ranges} {n : Nat} (h : rs.contains n = true) :
    ∃ r ∈ rs, r.1 ≤ n ∧ n ≤ r.2 := by
  induction rs with
  | nil =>
      simp [contains] at h
  | cons r rs ih =>
      obtain ⟨first, last⟩ := r
      simp only [contains] at h
      split at h
      · simp at h
      · split at h
        · exact ⟨(first, last), by simp, by omega, by omega⟩
        · obtain ⟨r, hr, hn⟩ := ih h
          exact ⟨r, by simp [hr], hn⟩

end Ranges

end Unicode
end CSyntax
