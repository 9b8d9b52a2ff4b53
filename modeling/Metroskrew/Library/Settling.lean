import Mathlib.Data.Fintype.Pigeonhole
import Mathlib.Data.Nat.ModEq
import Mathlib.Order.Filter.AtTopBot.Basic
import Mathlib.Tactic

/-! Sets that spread along a relation, step after step: when they come to rest. -/

namespace Metroskrew.Library.Settling

open Filter

variable {V : Type*} (R : V → V → Prop)

/-- Where one step leads from a set. -/
def spread (S : Set V) : Set V := {v | ∃ u ∈ S, R u v}

/-- What leads back to itself, and is reached at all, is reached in every phase of the round trip. -/
def EveryPhase (S : Set V) : Prop :=
  ∀ v d, 0 < d → v ∈ (spread R)^[d] {v} → (∃ t, v ∈ (spread R)^[t] S) →
    ∀ r, ∃ t, t ≡ r [MOD d] ∧ v ∈ (spread R)^[t] S

variable {R} {S : Set V} {u v : V} {s t : ℕ}

lemma mem_iterate : v ∈ (spread R)^[t] S ↔ ∃ u ∈ S, v ∈ (spread R)^[t] {u} := by
  induction t generalizing v with
  | zero => simp
  | succ t ih =>
    simp only [Function.iterate_succ_apply', spread, Set.mem_ofPred_eq]
    constructor
    · rintro ⟨w, hw, hstep⟩
      obtain ⟨u, hu, hwu⟩ := ih.mp hw
      exact ⟨u, hu, w, hwu, hstep⟩
    · rintro ⟨u, hu, w, hw, hstep⟩
      exact ⟨w, ih.mpr ⟨u, hu, hw⟩, hstep⟩

lemma iterate_trans (hu : u ∈ (spread R)^[s] S) (hv : v ∈ (spread R)^[t] {u}) :
    v ∈ (spread R)^[s + t] S := by
  rw [Nat.add_comm, Function.iterate_add_apply]
  exact mem_iterate.mpr ⟨u, hu, hv⟩

lemma round_trips {d : ℕ} (h : v ∈ (spread R)^[d] {v}) (k : ℕ) : v ∈ (spread R)^[k * d] {v} := by
  induction k with
  | zero => simp
  | succ k ih =>
    rw [Nat.succ_mul]
    exact iterate_trans ih h

lemma exists_walk (h : v ∈ (spread R)^[t] S) :
    ∃ f : ℕ → V, f 0 ∈ S ∧ f t = v ∧ ∀ i < t, R (f i) (f (i + 1)) := by
  induction t generalizing v with
  | zero => exact ⟨fun _ => v, h, rfl, by simp⟩
  | succ t ih =>
    rw [Function.iterate_succ_apply'] at h
    obtain ⟨w, hw, hstep⟩ := h
    obtain ⟨f, hstart, hend, hwalk⟩ := ih hw
    refine ⟨fun i => if i ≤ t then f i else v, by simpa using hstart, by simp, fun i hi => ?_⟩
    beta_reduce
    rw [if_pos (Nat.le_of_lt_succ hi)]
    rcases Nat.lt_or_ge i t with hlt | hge
    · rw [if_pos (Nat.succ_le_of_lt hlt)]
      exact hwalk i hlt
    · obtain rfl : i = t := by omega
      rw [if_neg (by omega), hend]
      exact hstep

lemma walk_mem {f : ℕ → V} (hwalk : ∀ i < t, R (f i) (f (i + 1))) {i d : ℕ} (h : i + d ≤ t) :
    f (i + d) ∈ (spread R)^[d] {f i} := by
  induction d with
  | zero => simp
  | succ d ih =>
    rw [Function.iterate_succ_apply']
    exact ⟨f (i + d), ih (by omega), hwalk (i + d) (by omega)⟩

lemma exists_round_trip [Finite V] (h : v ∈ (spread R)^[t] S) (ht : Nat.card V ≤ t) :
    ∃ w i d j, 0 < d ∧ w ∈ (spread R)^[i] S ∧ w ∈ (spread R)^[d] {w} ∧ v ∈ (spread R)^[j] {w} := by
  obtain ⟨f, hstart, rfl, hwalk⟩ := exists_walk h
  have hround : ∀ i d, 0 < d → i + d ≤ t → f (i + d) = f i →
      ∃ w i d j, 0 < d ∧ w ∈ (spread R)^[i] S ∧ w ∈ (spread R)^[d] {w} ∧
        f t ∈ (spread R)^[j] {w} := by
    intro i d hd hle heq
    have hreach := walk_mem hwalk (i := 0) (d := i) (by omega)
    rw [Nat.zero_add] at hreach
    have hback := walk_mem hwalk hle
    have hrest := walk_mem hwalk (i := i) (d := t - i) (by omega)
    rw [heq] at hback
    rw [show i + (t - i) = t by omega] at hrest
    exact ⟨f i, i, d, t - i, hd, mem_iterate.mpr ⟨f 0, hstart, hreach⟩, hback, hrest⟩
  have := Fintype.ofFinite V
  rw [Nat.card_eq_fintype_card] at ht
  obtain ⟨i, j, hne, heq⟩ :=
    Fintype.exists_ne_map_eq_of_card_lt (fun i : Fin (t + 1) => f i) (by simpa using ht)
  have hi := i.isLt
  have hj := j.isLt
  rcases Nat.lt_or_gt_of_ne (fun h => hne (Fin.ext h)) with hlt | hgt
  · apply hround i (j - i) (by omega) (by omega)
    rw [show (i : ℕ) + (j - i) = j by omega]
    exact heq.symm
  · apply hround j (i - j) (by omega) (by omega)
    rw [show (j : ℕ) + (i - j) = i by omega]
    exact heq

lemma EveryPhase.eventually_mem (h : EveryPhase R S) {d : ℕ} (hd : 0 < d)
    (hback : v ∈ (spread R)^[d] {v}) (hreach : ∃ t, v ∈ (spread R)^[t] S) :
    ∀ᶠ t in atTop, v ∈ (spread R)^[t] S := by
  have hphase : ∀ r : Fin d, ∀ᶠ t in atTop, t ≡ r [MOD d] → v ∈ (spread R)^[t] S := by
    intro r
    obtain ⟨s, hs, hmem⟩ := h v d hd hback hreach r
    filter_upwards [eventually_ge_atTop s] with t hle hmod
    obtain ⟨k, hk⟩ := (Nat.modEq_iff_dvd' hle).mp (hs.trans hmod.symm)
    have := iterate_trans hmem (round_trips hback k)
    rwa [show s + k * d = t by rw [Nat.mul_comm, ← hk]; omega] at this
  filter_upwards [eventually_all.mpr hphase] with t ht
  exact ht ⟨t % d, Nat.mod_lt t hd⟩ (Nat.mod_modEq t d).symm

lemma iterate_fixed (h : (spread R)^[t + 1] S = (spread R)^[t] S) (hs : t ≤ s) :
    (spread R)^[s] S = (spread R)^[t] S := by
  induction s, hs using Nat.le_induction with
  | base => rfl
  | succ s _ ih => rw [Function.iterate_succ_apply', ih, ← Function.iterate_succ_apply' (spread R), h]

/-- A set comes to rest iff it reaches every round trip in all of its phases or in none. -/
theorem settles_iff [Finite V] :
    (∀ᶠ t in atTop, (spread R)^[t + 1] S = (spread R)^[t] S) ↔ EveryPhase R S := by
  constructor
  · intro hrest v d hd hback ⟨s, hmem⟩ r
    obtain ⟨t, ht⟩ := hrest.exists
    have hlate : v ∈ (spread R)^[t] S := by
      rw [← iterate_fixed ht (s := s + t * d) (by nlinarith)]
      exact iterate_trans hmem (round_trips hback t)
    refine ⟨r + d * t, by simp [Nat.ModEq], ?_⟩
    rwa [iterate_fixed ht (by nlinarith)]
  · intro h
    have hall : ∀ v, ∀ᶠ t in atTop, (∃ s, Nat.card V ≤ s ∧ v ∈ (spread R)^[s] S) →
        v ∈ (spread R)^[t] S := by
      intro v
      by_cases hv : ∃ s, Nat.card V ≤ s ∧ v ∈ (spread R)^[s] S
      · obtain ⟨s, hs, hmem⟩ := hv
        obtain ⟨w, i, d, j, hd, hreach, hback, hrest⟩ := exists_round_trip hmem hs
        have hw := h.eventually_mem hd hback ⟨i, hreach⟩
        filter_upwards [(tendsto_sub_atTop_nat j).eventually hw, eventually_ge_atTop j] with t ht hj _
        have := iterate_trans ht hrest
        rwa [Nat.sub_add_cancel hj] at this
      · exact .of_forall fun _ hex => absurd hex hv
    filter_upwards [eventually_all.mpr hall, (tendsto_add_atTop_nat 1).eventually
      (eventually_all.mpr hall), eventually_ge_atTop (Nat.card V)] with t ht ht' hle
    ext v
    exact ⟨fun hv => ht v ⟨t + 1, by omega, hv⟩, fun hv => ht' v ⟨t, hle, hv⟩⟩

end Metroskrew.Library.Settling
