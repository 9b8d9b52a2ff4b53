import Mathlib.Data.Prod.Lex
import Metroskrew.Library.Comparing
import Metroskrew.Patch.ScanBounds

/-! `sort_loc`, which returns the difference of two `size_t` as an `int`: for which locations `qsort`
gets an order from it. -/

namespace Metroskrew.Patch

open Metroskrew.Library.Comparing

def sortLoc (p1 p2 : Loc) : ℤ :=
  if p2.raw ≠ p1.raw then p2.raw.toNat - p1.raw.toNat
  else int32 (sizeT (p1.start - p2.start) % 2 ^ 32)

/-- Raw entries first, and then by `start`. -/
def locKey (loc : Loc) : Bool ×ₗ ℕ := toLex (!loc.raw, loc.start)

structure SortsLocs (locs : List Loc) : Prop where
  consistent : Consistent sortLoc locs
  by_key : ByKey sortLoc locKey locs
  sorted : ∀ sorted, Sorts sortLoc locs sorted →
    sorted.Perm locs ∧ sorted.Pairwise fun a b => locKey a ≤ locKey b

lemma int32_difference {a b : ℕ} (ha : a < 2 ^ 32) (hb : b < 2 ^ 32) :
    int32 (sizeT ((a : ℤ) - b) % 2 ^ 32) =
      if 2 ^ 31 ≤ (a : ℤ) - b then (a : ℤ) - b - 2 ^ 32
      else if (a : ℤ) - b < -2 ^ 31 then (a : ℤ) - b + 2 ^ 32
      else (a : ℤ) - b := by
  rw [int32, sizeT]
  split_ifs <;> omega

lemma locKey_lt {a b : Loc} :
    locKey a < locKey b ↔ a.raw = true ∧ b.raw = false ∨ a.raw = b.raw ∧ a.start < b.start := by
  rw [locKey, locKey, Prod.Lex.toLex_lt_toLex]
  cases a.raw <;> cases b.raw <;> simp

lemma sortLoc_raw {a b : Loc} (h : a.raw ≠ b.raw) :
    (sortLoc a b < 0 ↔ locKey a < locKey b) ∧ (0 < sortLoc a b ↔ locKey b < locKey a) := by
  rw [sortLoc, if_pos (Ne.symm h), locKey_lt, locKey_lt]
  cases ha : a.raw <;> cases hb : b.raw <;> simp_all

lemma sortLoc_start {a b : Loc} (h : a.raw = b.raw) (ha : a.start < 2 ^ 32) (hb : b.start < 2 ^ 32) :
    ((sortLoc a b < 0 ↔ locKey a < locKey b) ∧ (0 < sortLoc a b ↔ locKey b < locKey a)) ↔
      (a.start : ℤ) - b.start < 2 ^ 31 ∧ -2 ^ 31 ≤ (a.start : ℤ) - b.start := by
  have hkey : ∀ {c d : Loc}, c.raw = d.raw → (locKey c < locKey d ↔ c.start < d.start) := by
    intro c d hraw
    rw [locKey_lt, hraw]
    cases d.raw <;> simp
  rw [sortLoc, if_neg (not_not.mpr h.symm), int32_difference ha hb, hkey h, hkey h.symm]
  split_ifs <;> omega

theorem sortLoc_iff (locs : List Loc) (hstart : ∀ loc ∈ locs, loc.start < 2 ^ 32) :
    SortsLocs locs ↔
      ∀ a ∈ locs, ∀ b ∈ locs, a.raw = b.raw → b.start - a.start < 2 ^ 31 := by
  constructor
  · intro hsorts a ha b hb hraw
    have hnear := (sortLoc_start hraw.symm (hstart b hb) (hstart a ha)).mp (hsorts.by_key b hb a ha)
    omega
  · intro hnear
    have hkey : ByKey sortLoc locKey locs := by
      intro a ha b hb
      by_cases hraw : a.raw = b.raw
      · apply (sortLoc_start hraw (hstart a ha) (hstart b hb)).mpr
        have hab := hnear a ha b hb hraw
        have hba := hnear b hb a ha hraw.symm
        omega
      · exact sortLoc_raw hraw
    exact ⟨hkey.consistent, hkey, fun sorted h => ⟨h.1, h.sorted hkey⟩⟩

theorem sortLoc_iff_two :
    SortsLocs [⟨"main", 0x1000, 0x1000, false⟩, ⟨"envp", 0x401000, 0, false⟩] := by
  apply (sortLoc_iff _ (by decide)).mpr
  decide

/-- The address of `envp` is `0x90000000`, and `qsort` leaves it in front of `argv` at 0. -/
theorem sortLoc_far : ∃ binary out, scanBin binary = some out ∧
    (∀ loc ∈ out.locs, loc.start < 2 ^ 32) ∧ Sorts sortLoc out.locs out.locs ∧
    (¬ out.locs.Pairwise fun a b => locKey a ≤ locKey b) ∧ ¬ SortsLocs out.locs := by
  let binary := (initImage [0, 0, 0, 0] [0, 0, 0, 0] [0, 0, 0, 0]).set 38 0x90
  let locs : List Loc := [⟨"envp", 0x90000000, 0, false⟩, ⟨"argv", 0, 0, false⟩,
    ⟨"argc", 0, 0, false⟩, ⟨"init_args", 17, 0, false⟩, ⟨"init_envp", 22, 0, false⟩,
    ⟨"main", 56, 56, false⟩]
  have hscan : scanBin binary = some ⟨none, locs⟩ := by decide +kernel
  have hsorts : Sorts sortLoc locs locs := ⟨List.Perm.refl _, fun _ => by decide +kernel⟩
  have hout : ¬ locs.Pairwise fun a b => locKey a ≤ locKey b := by decide +kernel
  exact ⟨binary, _, hscan, by decide +kernel, hsorts, hout, fun h => hout (h.sorted _ hsorts).2⟩

end Metroskrew.Patch
