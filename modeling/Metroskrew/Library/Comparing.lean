import Mathlib.Order.Defs.LinearOrder
import Mathlib.Tactic

/-! Three-way comparators: when one is an order on the elements of a list, and what a sort that is
given one may return. -/

namespace Metroskrew.Library.Comparing

variable {α β : Type*} [LinearOrder β] (cmp : α → α → ℤ) (key : α → β)

/-- A strict weak order on these elements. -/
structure Consistent (xs : List α) : Prop where
  antisymm : ∀ a ∈ xs, ∀ b ∈ xs, cmp a b < 0 ↔ 0 < cmp b a
  trans : ∀ a ∈ xs, ∀ b ∈ xs, ∀ c ∈ xs, cmp a b ≤ 0 → cmp b c ≤ 0 → cmp a c ≤ 0

def ByKey (xs : List α) : Prop :=
  ∀ a ∈ xs, ∀ b ∈ xs, (cmp a b < 0 ↔ key a < key b) ∧ (0 < cmp a b ↔ key b < key a)

/-- A sort in place promises no order for a comparator that is none. -/
def Sorts (xs ys : List α) : Prop :=
  ys.Perm xs ∧ (Consistent cmp xs → ys.Pairwise fun a b => cmp a b ≤ 0)

variable {cmp key} {xs ys : List α}

lemma ByKey.le_iff (h : ByKey cmp key xs) {a b : α} (ha : a ∈ xs) (hb : b ∈ xs) :
    cmp a b ≤ 0 ↔ key a ≤ key b := by
  rw [← not_lt, (h a ha b hb).2, not_lt]

lemma ByKey.consistent (h : ByKey cmp key xs) : Consistent cmp xs := by
  constructor
  · intro a ha b hb
    rw [(h a ha b hb).1, (h b hb a ha).2]
  · intro a ha b hb c hc hab hbc
    rw [h.le_iff ha hb] at hab
    rw [h.le_iff hb hc] at hbc
    exact (h.le_iff ha hc).mpr (hab.trans hbc)

theorem Sorts.sorted (hsorts : Sorts cmp xs ys) (h : ByKey cmp key xs) :
    ys.Pairwise fun a b => key a ≤ key b := by
  obtain ⟨hperm, hpair⟩ := hsorts
  apply (hpair h.consistent).imp_of_mem
  intro a b ha hb hle
  exact (h.le_iff (hperm.mem_iff.mp ha) (hperm.mem_iff.mp hb)).mp hle

end Metroskrew.Library.Comparing
