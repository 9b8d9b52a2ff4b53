import Mathlib.Tactic

/-! Stores into a block of memory, at an offset that may be any number. One outside the block has no
result. -/

namespace Metroskrew.Library.Buffer

variable {α : Type*}

def store (block : List α) (i : ℤ) (c : α) : Option (List α) :=
  if 0 ≤ i ∧ i < block.length then some (block.set i.toNat c) else none

def copy : List α → ℤ → List α → Option (List α)
  | [], _, block => some block
  | c :: s, i, block => do
    let block ← store block i c
    copy s (i + 1) block

lemma store_between (front back : List α) (o c : α) :
    store (front ++ o :: back) front.length c = some (front ++ c :: back) := by
  rw [store, if_pos (by simp)]
  simp [List.set_append_right]

lemma copy_between {s old : List α} (front back : List α) (h : old.length = s.length) :
    copy s front.length (front ++ (old ++ back)) = some (front ++ (s ++ back)) := by
  induction s generalizing front old with
  | nil =>
    obtain rfl : old = [] := List.length_eq_zero_iff.mp h
    rfl
  | cons c s ih =>
    cases old with
    | nil => cases h
    | cons o old =>
      have hrest := ih (front ++ [c]) (Nat.succ.inj h)
      rw [List.length_append, List.length_singleton, List.append_assoc, List.append_assoc] at hrest
      rw [copy, List.cons_append, store_between, Option.bind_eq_bind, Option.bind_some]
      exact_mod_cast hrest

/-- Copies of `s` side by side, from the start of the block on. -/
lemma copy_times {s old : List α} (back : List α) (p : ℕ) (h : old.length = s.length * p) :
    (List.range p).foldlM (fun block (i : ℕ) => copy s (s.length * i) block) (old ++ back) =
      some ((List.replicate p s).flatten ++ back) := by
  induction p generalizing old back with
  | zero =>
    obtain rfl : old = [] := List.length_eq_zero_iff.mp h
    rfl
  | succ p ih =>
    have hlen : (old.take (s.length * p)).length = s.length * p := by
      rw [List.length_take, h, Nat.mul_succ]
      omega
    have hlast : (old.drop (s.length * p)).length = s.length := by
      rw [List.length_drop, h, Nat.mul_succ]
      omega
    have hfront : ((List.replicate p s).flatten.length : ℤ) = s.length * p := by
      simp [mul_comm]
    rw [← List.take_append_drop (s.length * p) old, List.append_assoc, List.range_succ,
      List.foldlM_append, ih _ hlen, Option.bind_eq_bind, Option.bind_some, List.foldlM_cons,
      ← hfront, copy_between _ back hlast, List.replicate_succ', List.flatten_append,
      List.append_assoc]
    simp

end Metroskrew.Library.Buffer
