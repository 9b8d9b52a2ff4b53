import Mathlib.Tactic

/-! A heap of blocks that notes what is freed. An address is given out once, and a block that is no
longer there can neither be read, written nor freed. -/

namespace Metroskrew.Library

variable {β : Type*}

structure Heap (β : Type*) where
  next : ℕ
  live : ℕ → Option β
  freed : List ℕ
  fresh : ∀ a, next ≤ a → live a = none
  ledger : ∀ a, freed.count a = if a < next ∧ live a = none then 1 else 0

namespace Heap

def empty : Heap β := ⟨0, fun _ => none, [], fun _ _ => rfl, fun a => by simp⟩

variable (h : Heap β)

lemma lt_next {a : ℕ} {b : β} (hb : h.live a = some b) : a < h.next := by
  by_contra hout
  rw [h.fresh a (Nat.le_of_not_lt hout)] at hb
  cases hb

def malloc (b : β) : ℕ × Heap β :=
  (h.next,
    { next := h.next + 1
      live := Function.update h.live h.next (some b)
      freed := h.freed
      fresh := by
        intro a ha
        rw [Function.update_of_ne (by omega)]
        exact h.fresh a (by omega)
      ledger := by
        intro a
        rw [h.ledger a]
        by_cases ha : a = h.next
        · simp [ha]
        · have hlt : a < h.next + 1 ↔ a < h.next := by omega
          simp only [Function.update_of_ne ha, hlt] })

def store (a : ℕ) (b : β) : Option (Heap β) :=
  if hlive : (h.live a).isSome then
    some
      { next := h.next
        live := Function.update h.live a (some b)
        freed := h.freed
        fresh := by
          intro a' ha'
          obtain ⟨b', hb'⟩ := Option.isSome_iff_exists.mp hlive
          have hlt := h.lt_next hb'
          rw [Function.update_of_ne (by omega)]
          exact h.fresh a' ha'
        ledger := by
          intro a'
          rw [h.ledger a']
          by_cases ha : a' = a
          · subst ha
            simp [Option.isSome_iff_ne_none.mp hlive]
          · rw [Function.update_of_ne ha] }
  else none

def free (a : ℕ) : Option (Heap β) :=
  if hlive : (h.live a).isSome then
    some
      { next := h.next
        live := Function.update h.live a none
        freed := a :: h.freed
        fresh := by
          intro a' ha'
          by_cases ha : a' = a
          · rw [ha, Function.update_self]
          · rw [Function.update_of_ne ha, h.fresh a' ha']
        ledger := by
          intro a'
          obtain ⟨b, hb⟩ := Option.isSome_iff_exists.mp hlive
          have hlt := h.lt_next hb
          rw [List.count_cons, h.ledger a']
          by_cases ha : a' = a
          · subst ha
            simp [hb, hlt]
          · simp [ha, Ne.symm ha] }
  else none

lemma live_next : h.live h.next = none := h.fresh h.next le_rfl

lemma malloc_fst (b : β) : (h.malloc b).1 = h.next := rfl

lemma malloc_live (b : β) : (h.malloc b).2.live = Function.update h.live h.next (some b) := rfl

variable {h}

lemma store_some {a : ℕ} {b : β} (hb : h.live a = some b) (b' : β) :
    ∃ h', h.store a b' = some h' ∧ h'.live = Function.update h.live a (some b') :=
  ⟨_, dif_pos (by rw [hb]; rfl), rfl⟩

lemma free_some {a : ℕ} {b : β} (hb : h.live a = some b) :
    ∃ h', h.free a = some h' ∧ h'.live = Function.update h.live a none :=
  ⟨_, dif_pos (by rw [hb]; rfl), rfl⟩

/-- Where nothing given out in between is left, each of it was freed once. -/
theorem freed_once {h₀ : Heap β} (hlive : h.live = h₀.live) {a : ℕ} (hle : h₀.next ≤ a)
    (hlt : a < h.next) : h.freed.count a = 1 := by
  rw [h.ledger a, if_pos ⟨hlt, by rw [hlive, h₀.fresh a hle]⟩]

end Heap

end Metroskrew.Library
