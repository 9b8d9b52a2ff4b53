import Mathlib.Data.List.Basic
import Mathlib.Tactic

/-! Contiguous windows of an indexed image, and how emitted runs of bytes tile one. -/

namespace Metroskrew.Library.Window

variable {β : Type*}

def window (f : ℕ → β) (a n : ℕ) : List β := (List.range' a n).map f

@[simp] lemma window_zero (f : ℕ → β) (a : ℕ) : window f a 0 = [] := rfl

@[simp] lemma window_length (f : ℕ → β) (a n : ℕ) : (window f a n).length = n := by simp [window]

lemma window_append (f : ℕ → β) (a m n : ℕ) :
    window f a m ++ window f (a + m) n = window f a (m + n) := by
  simp [window, ← List.map_append]

lemma window_split (f : ℕ → β) {a b c : ℕ} (hab : a ≤ b) (hbc : b ≤ c) :
    window f a (b - a) ++ window f b (c - b) = window f a (c - a) := by
  have h := window_append f a (b - a) (c - b)
  rwa [show a + (b - a) = b by omega, show b - a + (c - b) = c - a by omega] at h

lemma window_congr {f g : ℕ → β} {a n : ℕ} (h : ∀ i, a ≤ i → i < a + n → f i = g i) :
    window f a n = window g a n := by
  apply List.map_congr_left
  intro i hi
  rw [List.mem_range'_1] at hi
  exact h i hi.1 hi.2

lemma window_shift (f : ℕ → β) (c a n : ℕ) : window (fun i => f (c + i)) a n = window f (c + a) n := by
  apply List.ext_getElem (by simp)
  intro i _ _
  simp [window, Nat.add_assoc]

lemma window_replicate {f : ℕ → β} {b : β} {a n : ℕ} (h : ∀ i, a ≤ i → i < a + n → f i = b) :
    window f a n = List.replicate n b := by
  rw [window_congr h]
  simp [window]

lemma window_getElem? (f : ℕ → β) {a n i : ℕ} (h : i < n) : (window f a n)[i]? = some (f (a + i)) := by
  simp [window, h]

end Metroskrew.Library.Window
