import Metroskrew.Library.InPlaceIteration

/-! Dominators of a graph given by predecessors, and the sets of labels the in-place iteration
leaves: the greatest solution of the data-flow equations holds exactly the dominators. -/

namespace Metroskrew.Library.Dominators

open Metroskrew.Library.InPlaceIteration

variable {V β : Type*} (preds : V → Set V) (entry : V)

/-- A path from the entry, its last node first. -/
inductive Walk : V → List V → Prop
  | start : Walk entry [entry]
  | step {u v path} : Walk u path → u ∈ preds v → Walk v (v :: path)

def Dominates (w v : V) : Prop := ∀ path, Walk preds entry v path → w ∈ path

variable (label : V → β)

def meet (v : V) (d : V → Set β) : Set β := insert (label v) {b | ∀ u ∈ preds v, b ∈ d u}

def domSet (v : V) : Set β := label '' {w | Dominates preds entry w v}

variable {preds entry label}

lemma meet_mono (v : V) : Monotone (meet preds label v) := by
  intro d e hle
  apply Set.insert_subset_insert
  intro b hb u hu
  exact hle u (hb u hu)

lemma Dominates.eq_or_pred {w v : V} (h : Dominates preds entry w v) :
    w = v ∨ ∀ u ∈ preds v, Dominates preds entry w u := by
  by_cases hwv : w = v
  · exact .inl hwv
  · refine .inr fun u hu path hpath => ?_
    exact (List.mem_cons.mp (h _ (hpath.step hu))).resolve_left hwv

lemma domSet_le_meet {v : V} {s : V → Set β}
    (hs : ∀ u ∈ preds v, domSet preds entry label u ≤ s u) :
    domSet preds entry label v ≤ meet preds label v s := by
  rintro _ ⟨w, hw, rfl⟩
  rcases hw.eq_or_pred with rfl | hpred
  · exact Set.mem_insert _ _
  · exact Set.mem_insert_of_mem _ fun u hu => hs u hu ⟨w, hpred u hu, rfl⟩

lemma domSet_entry : domSet preds entry label entry ≤ {label entry} := by
  rintro _ ⟨w, hw, rfl⟩
  have := hw _ .start
  simpa using congrArg label (List.mem_singleton.mp this)

lemma mem_walk (hlabel : Function.Injective label) {d : V → Set β}
    (hentry : d entry ⊆ {label entry})
    (hd : ∀ v, v ≠ entry → (∃ u, u ∈ preds v) → d v ⊆ meet preds label v d) {w v : V}
    {path : List V} (hpath : Walk preds entry v path) (hw : label w ∈ d v) : w ∈ path := by
  induction hpath with
  | start => exact List.mem_singleton.mpr (hlabel (hentry hw))
  | @step u v path hwalk huv ih =>
    by_cases hv : v = entry
    · subst hv
      exact List.mem_cons.mpr (.inl (hlabel (hentry hw)))
    · rcases hd v hv ⟨u, huv⟩ hw with heq | hmem
      · exact List.mem_cons.mpr (.inl (hlabel heq))
      · exact List.mem_cons_of_mem v (ih (hmem u huv))

variable (preds entry label) in
/-- What every sweep keeps: the values hold all dominators, and only shrink. -/
structure Above (vs : List V) (s : V → Set β) : Prop where
  entry_le : s entry ≤ {label entry}
  descending : Descending (meet preds label) vs s
  domSet_le : ∀ v ∈ {v | v = entry ∨ v ∈ vs}, domSet preds entry label v ≤ s v

variable {vs : List V} {s : V → Set β}

lemma Above.sweep [DecidableEq V] (h : Above preds entry label vs s) (hnot : entry ∉ vs)
    (hpreds : ∀ v ∈ vs, ∀ u ∈ preds v, u = entry ∨ u ∈ vs) :
    Above preds entry label vs (sweep (meet preds label) vs s) where
  entry_le := by rw [sweep_of_not_mem hnot]; exact h.entry_le
  descending := (h.descending.sweep_le meet_mono (List.Subset.refl vs)).2
  domSet_le := by
    apply le_sweep _ h.domSet_le
    exact fun s hs v hv => domSet_le_meet fun u hu => hs u (hpreds v hv u hu)

/-- Where a sweep changes nothing, the values are the dominators. -/
theorem Above.mem_iff [DecidableEq V] (h : Above preds entry label vs s)
    (hlabel : Function.Injective label) (hvs : ∀ v, v ≠ entry → (∃ u, u ∈ preds v) → v ∈ vs)
    (hfix : InPlaceIteration.sweep (meet preds label) vs s = s) {v : V} (hv : v ∈ vs) (w : V) :
    label w ∈ s v ↔ Dominates preds entry w v := by
  constructor
  · intro hw path hpath
    refine mem_walk hlabel h.entry_le (fun u hu hpred => ?_) hpath hw
    exact (h.descending.eq_of_sweep meet_mono (List.Subset.refl vs) hfix u (hvs u hu hpred)).ge
  · exact fun hw => h.domSet_le v (.inr hv) ⟨w, hw, rfl⟩

end Metroskrew.Library.Dominators
