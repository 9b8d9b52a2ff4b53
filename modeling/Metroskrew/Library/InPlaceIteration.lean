import Mathlib

/-! In-place iteration of monotone equations downwards: one value at a time is replaced by what its
equation gives for the current values, over and over, until a sweep changes nothing. -/

namespace Metroskrew.Library.InPlaceIteration

variable {V L : Type*} [DecidableEq V] (F : V → (V → L) → L)

def relax (v : V) (s : V → L) : V → L := Function.update s v (F v s)

def sweep (vs : List V) (s : V → L) : V → L := vs.foldl (fun s v => relax F v s) s

variable {F} {vs us : List V} {s : V → L} {v : V}

@[simp] lemma sweep_cons : sweep F (v :: us) s = sweep F us (relax F v s) := rfl

lemma relax_of_ne {u : V} (h : u ≠ v) : relax F v s u = s u := Function.update_of_ne h _ _

lemma sweep_of_not_mem (h : v ∉ us) : sweep F us s v = s v := by
  induction us generalizing s with
  | nil => rfl
  | cons u us ih =>
    rw [List.mem_cons, not_or] at h
    rw [sweep_cons, ih h.2, relax_of_ne h.1]

variable [PartialOrder L]

variable (F vs s) in
/-- No value on the list is below what its equation gives. -/
def Descending : Prop := ∀ v ∈ vs, F v s ≤ s v

lemma Descending.relax_le (h : Descending F vs s) (hv : v ∈ vs) : relax F v s ≤ s :=
  update_le_self_iff.mpr (h v hv)

lemma Descending.relax (hF : ∀ v, Monotone (F v)) (h : Descending F vs s) (hv : v ∈ vs) :
    Descending F vs (relax F v s) := by
  intro u hu
  have hle := hF u (h.relax_le hv)
  by_cases huv : u = v
  · subst huv
    exact hle.trans_eq (Function.update_self u (F u s) s).symm
  · rw [relax_of_ne huv]
    exact hle.trans (h u hu)

lemma Descending.sweep_le (hF : ∀ v, Monotone (F v)) (h : Descending F vs s) (hus : us ⊆ vs) :
    sweep F us s ≤ s ∧ Descending F vs (sweep F us s) := by
  induction us generalizing s with
  | nil => exact ⟨le_rfl, h⟩
  | cons u us ih =>
    have hu := hus List.mem_cons_self
    obtain ⟨hle, hdesc⟩ := ih (h.relax hF hu) fun w hw => hus (List.mem_cons_of_mem u hw)
    exact ⟨hle.trans (h.relax_le hu), hdesc⟩

lemma Descending.eq_of_sweep (hF : ∀ v, Monotone (F v)) (h : Descending F vs s) (hus : us ⊆ vs)
    (hfix : sweep F us s = s) : ∀ v ∈ us, F v s = s v := by
  induction us with
  | nil => simp
  | cons u us ih =>
    have hu := hus List.mem_cons_self
    have htail : us ⊆ vs := fun w hw => hus (List.mem_cons_of_mem u hw)
    have hrelax : InPlaceIteration.relax F u s = s := by
      apply le_antisymm (h.relax_le hu)
      calc s = sweep F us (InPlaceIteration.relax F u s) := hfix.symm
        _ ≤ InPlaceIteration.relax F u s := ((h.relax hF hu).sweep_le hF htail).1
    intro w hw
    rcases List.mem_cons.mp hw with rfl | hw
    · have := congrFun hrelax w
      rwa [InPlaceIteration.relax, Function.update_self] at this
    · exact ih htail (by rwa [sweep_cons, hrelax] at hfix) w hw

lemma le_sweep {d : V → L} {places : Set V}
    (hd : ∀ s, (∀ v ∈ places, d v ≤ s v) → ∀ v ∈ us, d v ≤ F v s)
    (hs : ∀ v ∈ places, d v ≤ s v) : ∀ v ∈ places, d v ≤ sweep F us s v := by
  induction us generalizing s with
  | nil => exact hs
  | cons u us ih =>
    have hrelax : ∀ v ∈ places, d v ≤ relax F u s v := by
      intro v hv
      by_cases hvu : v = u
      · subst hvu
        rw [relax, Function.update_self]
        exact hd s hs v List.mem_cons_self
      · rw [relax_of_ne hvu]
        exact hs v hv
    exact ih (fun s hs v hv => hd s hs v (List.mem_cons_of_mem u hv)) hrelax

/-- Sweeps cannot go on changing something: what holds where one changes nothing, and is passed back
over a sweep, holds from the start. -/
theorem Descending.induction [WellFoundedLT (V → L)] (hF : ∀ v, Monotone (F v))
    {motive : (V → L) → Prop}
    (fixed : ∀ s, Descending F vs s → sweep F vs s = s → motive s)
    (again : ∀ s, Descending F vs s → sweep F vs s ≠ s → motive (sweep F vs s) → motive s)
    (h : Descending F vs s) : motive s := by
  induction s using WellFoundedLT.induction with
  | ind s ih =>
    obtain ⟨hle, hdesc⟩ := h.sweep_le hF (List.Subset.refl vs)
    by_cases hfix : sweep F vs s = s
    · exact fixed s h hfix
    · exact again s h hfix (ih _ (lt_of_le_of_ne hle hfix) hdesc)

end Metroskrew.Library.InPlaceIteration
