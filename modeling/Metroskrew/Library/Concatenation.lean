import Mathlib.Data.List.Basic
import Mathlib.Tactic

/-! Lists put one after the other: which part, and which place in it, an element comes from. -/

namespace Metroskrew.Library.Concatenation

/-- With parts of these lengths, element `k` of the whole is element `j` of part `i`. -/
inductive Part : List ℕ → ℕ → ℕ → ℕ → Prop
  | head {n ns k} : k < n → Part (n :: ns) k 0 k
  | tail {n ns k i j} : Part ns k i j → Part (n :: ns) (n + k) (i + 1) j

variable {ns ms : List ℕ} {k i j : ℕ}

lemma Part.lt_sum (h : Part ns k i j) : k < ns.sum := by
  induction h with
  | @head n ns k hk =>
    rw [List.sum_cons]
    exact hk.trans_le (Nat.le_add_right n ns.sum)
  | tail _ ih =>
    rw [List.sum_cons]
    exact Nat.add_lt_add_left ih _

lemma Part.length (h : Part ns k i j) : ∃ n, ns[i]? = some n ∧ j < n := by
  induction h with
  | @head n ns k hk => exact ⟨n, rfl, hk⟩
  | tail _ ih => exact ih

lemma exists_part (h : k < ns.sum) : ∃ i j, Part ns k i j := by
  induction ns generalizing k with
  | nil => simp at h
  | cons n ns ih =>
    rw [List.sum_cons] at h
    rcases Nat.lt_or_ge k n with hk | hk
    · exact ⟨0, k, .head hk⟩
    · obtain ⟨m, rfl⟩ := Nat.exists_eq_add_of_le hk
      obtain ⟨i, j, hm⟩ := ih (k := m) (by omega)
      exact ⟨i + 1, j, .tail hm⟩

lemma Part.eq_offset (h : Part ns k i j) : k = (ns.take i).sum + j := by
  induction h with
  | head _ => simp
  | tail _ ih =>
    rw [List.take_succ_cons, List.sum_cons, ih, Nat.add_assoc]

lemma part_offset {n : ℕ} (hn : ns[i]? = some n) (hj : j < n) :
    Part ns ((ns.take i).sum + j) i j := by
  induction ns generalizing i with
  | nil => cases hn
  | cons m ns ih =>
    cases i with
    | zero =>
      obtain rfl : m = n := Option.some.inj hn
      have hpart : Part (m :: ns) j 0 j := .head hj
      simpa using hpart
    | succ i =>
      rw [List.take_succ_cons, List.sum_cons, Nat.add_assoc]
      exact .tail (ih hn)

lemma Part.unique {i' j' : ℕ} (h : Part ns k i j) (h' : Part ns k i' j') : i = i' ∧ j = j' := by
  induction h generalizing i' j' with
  | @head n ns k hk =>
    generalize hk' : k = k' at h'
    cases h' with
    | head => exact ⟨rfl, rfl⟩
    | tail _ => omega
  | @tail n ns k i j _ ih =>
    generalize hk' : n + k = k' at h'
    cases h' with
    | head hlt => omega
    | @tail _ _ m _ _ h' =>
      obtain rfl : k = m := by omega
      obtain ⟨rfl, rfl⟩ := ih h'
      exact ⟨rfl, rfl⟩

lemma Part.append (h : Part ns k i j) : Part (ns ++ ms) k i j := by
  induction h with
  | head hk => exact .head hk
  | tail _ ih => exact .tail ih

lemma Part.of_append (h : Part (ns ++ ms) k i j) (hk : k < ns.sum) : Part ns k i j := by
  obtain ⟨i', j', h'⟩ := exists_part hk
  obtain ⟨rfl, rfl⟩ := h.unique h'.append
  exact h'

lemma Part.getElem?_flatten {α : Type*} {ls : List (List α)} (h : Part (ls.map List.length) k i j) :
    ls.flatten[k]? = (ls[i]?).bind fun l => l[j]? := by
  induction ls generalizing k i with
  | nil => cases h
  | cons l ls ih =>
    rw [List.map_cons] at h
    cases h with
    | head hk => simp [List.getElem?_append_left hk]
    | tail h =>
      rw [List.flatten_cons, List.getElem?_append_right (Nat.le_add_right ..), Nat.add_sub_cancel_left,
        ih h]
      rfl

theorem eq_of_part (hlen : ns.length = ms.length) (hsum : ns.sum = ms.sum)
    (h : ∀ k < ns.sum, ∃ i j, Part ns k i j ∧ Part ms k i j) : ns = ms := by
  induction ns generalizing ms with
  | nil => exact (List.length_eq_zero_iff.mp hlen.symm).symm
  | cons n ns ih =>
    cases ms with
    | nil => cases hlen
    | cons m ms =>
      rw [List.sum_cons, List.sum_cons] at hsum
      have hsame : ∀ k < n + ns.sum, k < n ↔ k < m := by
        intro k hk
        obtain ⟨i, j, hn, hm⟩ := h k (by rwa [List.sum_cons])
        cases hn with
        | head hkn =>
          cases hm with
          | head hkm => exact iff_of_true hkn hkm
        | tail hn =>
          generalize hk' : n + _ = k' at hm
          cases hm with
          | tail hm => exact iff_of_false (by omega) (by omega)
      obtain rfl : n = m := by
        rcases lt_trichotomy n m with hlt | heq | hgt
        · have := hsame n (by omega)
          omega
        · exact heq
        · have := hsame m (by omega)
          omega
      congr 1
      apply ih
      · simpa using hlen
      · omega
      · intro k hk
        obtain ⟨i, j, hn, hm⟩ := h (n + k) (by simpa using hk)
        obtain ⟨i', j', hpart⟩ := exists_part hk
        obtain ⟨rfl, rfl⟩ := hn.unique (.tail hpart)
        refine ⟨i', j, hpart, ?_⟩
        generalize hk' : n + k = k' at hm
        cases hm with
        | @tail _ _ k'' _ _ hm =>
          obtain rfl : k = k'' := by omega
          exact hm

end Metroskrew.Library.Concatenation
