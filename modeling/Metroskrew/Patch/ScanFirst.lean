import Metroskrew.Patch.ScanFinders

/-! `scan` finds the first place where every region of a pattern matches, and reads nothing outside
the file. -/

namespace Metroskrew.Patch

variable {binary : List UInt8}

lemma memmem_none {needle hay : List UInt8} (h : memmem needle hay = none) (q : ℕ) :
    ¬ needle <+: hay.drop q := by
  induction hay generalizing q with
  | nil =>
    rw [memmem] at h
    split_ifs at h with hp
    rw [List.drop_nil]
    exact mt List.isPrefixOf_iff_prefix.mpr hp
  | cons b hay ih =>
    rw [memmem] at h
    split_ifs at h with hp
    rw [Option.map_eq_map, Option.map_eq_none_iff] at h
    cases q with
    | zero => exact mt List.isPrefixOf_iff_prefix.mpr hp
    | succ q => exact ih h q

lemma memmem_le {needle hay : List UInt8} {p q : ℕ} (h : memmem needle hay = some p)
    (hq : needle <+: hay.drop q) : p ≤ q := by
  induction hay generalizing p q with
  | nil =>
    rw [memmem] at h
    split_ifs at h with hp
    obtain rfl := Option.some.inj h
    exact Nat.zero_le q
  | cons b hay ih =>
    rw [memmem] at h
    split_ifs at h with hp
    · obtain rfl := Option.some.inj h
      exact Nat.zero_le q
    · obtain ⟨p', hp', rfl⟩ := Option.map_eq_some_iff.mp h
      cases q with
      | zero => exact absurd (List.isPrefixOf_iff_prefix.mpr hq) hp
      | succ q => exact Nat.succ_le_succ (ih hp' hq)

lemma prefix_bound {needle hay : List UInt8} {p : ℕ} (hne : needle ≠ []) (h : needle <+: hay.drop p) :
    p + needle.length ≤ hay.length := by
  have hle := h.length_le
  have hpos := List.length_pos_of_ne_nil hne
  rw [List.length_drop] at hle
  omega

lemma memmemFrom_in (needle : List UInt8) {start : ℕ} (hlen : binary.length < 2 ^ 63)
    (h : start ≤ binary.length) :
    memmemFrom binary needle start = some ((memmem needle (binary.drop start)).map (start + ·)) := by
  have hsize : sizeT (binary.length - start) = binary.length - start := by
    rw [← Nat.cast_sub h, sizeT_cast (by omega)]
  rw [memmemFrom, bytesAt, hsize, if_pos (by omega), List.take_of_length_le (by simp)]
  rfl

lemma memmemFrom_out {needle : List UInt8} {start : ℕ} (h : binary.length < start)
    (hstart : start < 2 ^ 64) : memmemFrom binary needle start = none := by
  rw [memmemFrom, bytesAt, if_neg]
  · rfl
  · rw [sizeT]
    omega

lemma memmemFrom_some {needle : List UInt8} {start e : ℕ} (hlen : binary.length < 2 ^ 63)
    (h : start ≤ binary.length) : memmemFrom binary needle start = some (some e) ↔
      IsLeast {q | start ≤ q ∧ needle <+: binary.drop q} e := by
  rw [memmemFrom_in _ hlen h, Option.some.injEq, Option.map_eq_some_iff]
  constructor
  · rintro ⟨p, hp, rfl⟩
    refine ⟨⟨Nat.le_add_right start p, by simpa using memmem_some hp⟩, ?_⟩
    rintro q ⟨hq, hat⟩
    obtain ⟨k, rfl⟩ := Nat.exists_eq_add_of_le hq
    rw [← List.drop_drop] at hat
    exact Nat.add_le_add_left (memmem_le hp hat) start
  · rintro ⟨⟨he, hat⟩, hleast⟩
    obtain ⟨k, rfl⟩ := Nat.exists_eq_add_of_le he
    rw [← List.drop_drop] at hat
    cases hm : memmem needle (binary.drop start) with
    | none => exact absurd hat (memmem_none hm k)
    | some p =>
      have hle : start + k ≤ start + p := by
        refine hleast ⟨Nat.le_add_right start p, ?_⟩
        rw [← List.drop_drop]
        exact memmem_some hm
      have := memmem_le hm hat
      exact ⟨p, rfl, by omega⟩

/-- `off` is an `int`, and what `data` points to fits in memory. -/
structure Region.Sized (cur : Region) : Prop where
  off_ge : -2 ^ 31 ≤ cur.off
  off_lt : cur.off < 2 ^ 31
  size : cur.data.length < 2 ^ 63

lemma sized_all {rest : List Region} (h : (rest.all fun r =>
    -2 ^ 31 ≤ r.off ∧ r.off < 2 ^ 31 ∧ r.data.length < 2 ^ 63) = true) : ∀ r ∈ rest, r.Sized := by
  intro r hr
  obtain ⟨hlo, hhi, hsize⟩ := of_decide_eq_true (List.all_eq_true.mp h r hr)
  exact ⟨hlo, hhi, hsize⟩

lemma restReads_eq {base : ℕ} {rest : List Region} (hlen : binary.length < 2 ^ 63)
    (hrest : ∀ r ∈ rest, r.Sized) : restReads binary base rest = some (restMatch binary base rest) := by
  induction rest with
  | nil => rfl
  | cons cur rest ih =>
    have hsize := (hrest cur List.mem_cons_self).size
    have ih := ih fun r hr => hrest r (List.mem_cons_of_mem cur hr)
    rw [restReads, restMatch, List.all_cons]
    by_cases hoff : binary.length < sizeT (base + cur.off)
    · simp [hoff]
    · have hsum : (sizeT (base + cur.off) + cur.data.length) % 2 ^ 64 =
          sizeT (base + cur.off) + cur.data.length := Nat.mod_eq_of_lt (by omega)
      rw [restMatch] at ih
      simp only [if_neg hoff, hsum]
      by_cases hend : binary.length < sizeT (base + cur.off) + cur.data.length
      · simp [hend]
      · simp only [if_neg hend, bytesAt, if_pos (Nat.le_of_not_lt hend)]
        by_cases hat : (binary.drop (sizeT (base + cur.off))).take cur.data.length = cur.data
        · simp [hat, hoff, hend, ih]
        · simp [hat]

lemma scan_none {cur : Region} {rest : List Region} {off : ℕ}
    (h : memmem cur.data (binary.drop off) = none) : scan binary cur rest off = none := by
  rw [scan]
  split
  · rfl
  · rename_i hp
    rw [h] at hp
    cases hp

lemma scan_at {cur : Region} {rest : List Region} {off p : ℕ}
    (h : memmem cur.data (binary.drop off) = some p) :
    scan binary cur rest off =
      if binary.length < sizeT ((off + p : ℕ) - cur.off) then scan binary cur rest (off + p + 1)
      else if restMatch binary (sizeT ((off + p : ℕ) - cur.off)) rest then
        some (sizeT ((off + p : ℕ) - cur.off))
      else scan binary cur rest (off + p + 1) := by
  rw [scan]
  split
  · rename_i hnone
    rw [h] at hnone
    cases hnone
  · rename_i q hq
    obtain rfl := Option.some.inj (h.symm.trans hq)
    rfl

/-- `scan` stays in the file, whatever the pattern. -/
theorem scanReads_eq {cur : Region} {rest : List Region} {off : ℕ} (hlen : binary.length < 2 ^ 63)
    (hrest : ∀ r ∈ rest, r.Sized) (hoff : off ≤ binary.length) :
    scanReads binary cur rest off = some (scan binary cur rest off) := by
  have hfound : ∀ {off p}, off ≤ binary.length → memmemFrom binary cur.data off = some (some p) →
      ∃ q, p = off + q ∧ memmem cur.data (binary.drop off) = some q := by
    intro off p hoff hp
    rw [memmemFrom_in _ hlen hoff, Option.some.injEq, Option.map_eq_some_iff] at hp
    obtain ⟨q, hq, rfl⟩ := hp
    exact ⟨q, rfl, hq⟩
  fun_induction scanReads binary cur rest off with
  | case1 off hnone =>
    rw [memmemFrom_in _ hlen hoff] at hnone
    cases hnone
  | case2 off hnone =>
    rw [memmemFrom_in _ hlen hoff, Option.some.injEq, Option.map_eq_none_iff] at hnone
    rw [scan_none hnone]
  | case3 off p hp scanBase hbase ih =>
    have hbounds := memmemFrom_bounds binary cur hp
    obtain ⟨q, rfl, hq⟩ := hfound hoff hp
    rw [ih (by omega), scan_at hq, if_pos hbase]
  | case4 off p hp scanBase hbase hnone =>
    rw [restReads_eq hlen hrest] at hnone
    cases hnone
  | case5 off p hp scanBase hbase hmatch =>
    rw [restReads_eq hlen hrest, Option.some.injEq] at hmatch
    obtain ⟨q, rfl, hq⟩ := hfound hoff hp
    rw [scan_at hq, if_neg hbase, if_pos hmatch]
  | case6 off p hp scanBase hbase hmatch ih =>
    have hbounds := memmemFrom_bounds binary cur hp
    rw [restReads_eq hlen hrest, Option.some.injEq] at hmatch
    obtain ⟨q, rfl, hq⟩ := hfound hoff hp
    rw [ih (by omega), scan_at hq, if_neg hbase, if_neg (by rw [hmatch]; decide)]

def Matches (binary : List UInt8) (regions : List Region) (base : ℕ) : Prop :=
  ∀ r ∈ regions, ∃ p : ℕ, (p : ℤ) = base + r.off ∧ r.data <+: binary.drop p

lemma restMatch_iff {base : ℕ} {rest : List Region} (hlen : binary.length < 2 ^ 63)
    (hbase : base ≤ binary.length) (hrest : ∀ r ∈ rest, r.Sized) :
    restMatch binary base rest = true ↔ Matches binary rest base := by
  rw [restMatch, List.all_eq_true]
  apply forall₂_congr
  intro r hr
  have hsized := hrest r hr
  have hlo := hsized.off_ge
  have hhi := hsized.off_lt
  have hsize := hsized.size
  simp only [Bool.and_eq_true, Bool.not_eq_true', decide_eq_false_iff_not, beq_iff_eq, not_lt]
  constructor
  · rintro ⟨⟨hoff, -⟩, hat⟩
    refine ⟨sizeT (base + r.off), ?_, List.prefix_iff_eq_take.mpr hat.symm⟩
    rw [sizeT] at hoff ⊢
    omega
  · rintro ⟨p, hp, hat⟩
    have hbound := prefix_bound r.data_ne hat
    rw [← hp, sizeT_cast (by omega)]
    refine ⟨⟨by omega, ?_⟩, (List.prefix_iff_eq_take.mp hat).symm⟩
    rw [Nat.mod_eq_of_lt (by omega)]
    exact hbound

lemma Matches.head {cur : Region} {rest : List Region} {base : ℕ} (hcur : cur.off = 0) :
    Matches binary (cur :: rest) base ↔
      cur.data <+: binary.drop base ∧ Matches binary rest base := by
  rw [Matches, List.forall_mem_cons, hcur, Int.add_zero]
  refine and_congr_left fun _ => ⟨?_, fun h => ⟨base, rfl, h⟩⟩
  rintro ⟨p, hp, hat⟩
  obtain rfl := Int.ofNat.inj hp
  exact hat

lemma memmem_le_drop {needle : List UInt8} {off p q : ℕ}
    (h : memmem needle (binary.drop off) = some p) (hq : off ≤ q) (hat : needle <+: binary.drop q) :
    off + p ≤ q := by
  obtain ⟨k, rfl⟩ := Nat.exists_eq_add_of_le hq
  rw [← List.drop_drop] at hat
  exact Nat.add_le_add_left (memmem_le h hat) off

/-- The first region is at `p`, and from there the base is in the file and the others match. -/
structure FullMatch (binary : List UInt8) (cur : Region) (rest : List Region) (p base : ℕ) : Prop where
  base_eq : (base : ℤ) = p - cur.off
  base_le : base ≤ binary.length
  occurs : cur.data <+: binary.drop p
  others : Matches binary rest base

lemma sizeT_base {p : ℕ} {off : ℤ} (hlen : binary.length < 2 ^ 63) (hp : p ≤ binary.length)
    (hlo : -2 ^ 31 ≤ off) (hhi : off < 2 ^ 31) {base : ℕ} (hbase : base ≤ binary.length) :
    sizeT (p - off) = base ↔ (base : ℤ) = p - off := by
  rw [sizeT]
  omega

/-- What stops `scan` at an occurrence of the first region is a full match there. -/
lemma restMatch_full {cur : Region} {rest : List Region} {off p : ℕ} (hlen : binary.length < 2 ^ 63)
    (hlo : -2 ^ 31 ≤ cur.off) (hhi : cur.off < 2 ^ 31) (hrest : ∀ r ∈ rest, r.Sized)
    (hp : memmem cur.data (binary.drop off) = some p) (base : ℕ) :
    FullMatch binary cur rest (off + p) base ↔ sizeT ((off + p : ℕ) - cur.off) = base ∧
      base ≤ binary.length ∧ restMatch binary base rest = true := by
  have hat := memmem_some hp
  rw [List.drop_drop] at hat
  have hbound := prefix_bound cur.data_ne hat
  constructor
  · rintro ⟨heq, hle, -, hothers⟩
    exact ⟨(sizeT_base hlen (by omega) hlo hhi hle).mpr heq, hle,
      (restMatch_iff hlen hle hrest).mpr hothers⟩
  · rintro ⟨heq, hle, hothers⟩
    exact ⟨(sizeT_base hlen (by omega) hlo hhi hle).mp heq, hle, hat,
      (restMatch_iff hlen hle hrest).mp hothers⟩

/-- Going on behind an occurrence without a full match skips none. -/
lemma full_skip {cur : Region} {rest : List Region} {off p : ℕ}
    (hp : memmem cur.data (binary.drop off) = some p)
    (hnone : ∀ base, ¬ FullMatch binary cur rest (off + p) base) :
    {q | off + p + 1 ≤ q ∧ ∃ b, FullMatch binary cur rest q b} =
      {q | off ≤ q ∧ ∃ b, FullMatch binary cur rest q b} := by
  ext q
  constructor
  · rintro ⟨hq, hfull⟩
    exact ⟨by omega, hfull⟩
  · rintro ⟨hq, b, hfull⟩
    have hle := memmem_le_drop hp hq hfull.occurs
    have hne : off + p ≠ q := by
      rintro rfl
      exact hnone b hfull
    exact ⟨by omega, b, hfull⟩

theorem scan_full_iff {cur : Region} {rest : List Region} {off base : ℕ}
    (hlen : binary.length < 2 ^ 63) (hlo : -2 ^ 31 ≤ cur.off) (hhi : cur.off < 2 ^ 31)
    (hrest : ∀ r ∈ rest, r.Sized) :
    scan binary cur rest off = some base ↔
      ∃ p, IsLeast {q | off ≤ q ∧ ∃ b, FullMatch binary cur rest q b} p ∧
        FullMatch binary cur rest p base := by
  fun_induction scan binary cur rest off with
  | case1 off hnone =>
    simp only [reduceCtorEq, false_iff]
    rintro ⟨q, ⟨⟨hq, -⟩, -⟩, hfull⟩
    obtain ⟨k, rfl⟩ := Nat.exists_eq_add_of_le hq
    have hat := hfull.occurs
    rw [← List.drop_drop] at hat
    exact memmem_none hnone k hat
  | case2 off p hp scanBase hbase ih =>
    rw [ih, full_skip hp]
    intro b hfull
    obtain ⟨heq, hle, -⟩ := (restMatch_full hlen hlo hhi hrest hp b).mp hfull
    omega
  | case3 off p hp scanBase hbase hmatch =>
    have hfull : FullMatch binary cur rest (off + p) scanBase :=
      (restMatch_full hlen hlo hhi hrest hp scanBase).mpr ⟨rfl, by omega, hmatch⟩
    have hleast : IsLeast {q | off ≤ q ∧ ∃ b, FullMatch binary cur rest q b} (off + p) :=
      ⟨⟨Nat.le_add_right off p, scanBase, hfull⟩, fun q hq =>
        memmem_le_drop hp hq.1 hq.2.choose_spec.occurs⟩
    rw [Option.some.injEq]
    constructor
    · rintro rfl
      exact ⟨off + p, hleast, hfull⟩
    · rintro ⟨q, hq, hfull'⟩
      rw [hq.unique hleast] at hfull'
      have := hfull.base_eq
      have := hfull'.base_eq
      omega
  | case4 off p hp scanBase hbase hmatch ih =>
    rw [ih, full_skip hp]
    intro b hfull
    obtain ⟨rfl, -, hothers⟩ := (restMatch_full hlen hlo hhi hrest hp b).mp hfull
    exact hmatch hothers

lemma FullMatch.of_head {cur : Region} {rest : List Region} {q b : ℕ} (hcur : cur.off = 0) :
    FullMatch binary cur rest q b ↔ b = q ∧ Matches binary (cur :: rest) q := by
  constructor
  · rintro ⟨heq, -, hat, hothers⟩
    obtain rfl : b = q := by omega
    exact ⟨rfl, (Matches.head hcur).mpr ⟨hat, hothers⟩⟩
  · rintro ⟨rfl, hmatch⟩
    obtain ⟨hat, hothers⟩ := (Matches.head hcur).mp hmatch
    have hbound := prefix_bound cur.data_ne hat
    exact ⟨by omega, by omega, hat, hothers⟩

theorem scan_iff {cur : Region} {rest : List Region} {off base : ℕ} (hlen : binary.length < 2 ^ 63)
    (hrest : ∀ r ∈ rest, r.Sized) (hcur : cur.off = 0) :
    scan binary cur rest off = some base ↔
      IsLeast {q | off ≤ q ∧ Matches binary (cur :: rest) q} base := by
  have hlo : -2 ^ 31 ≤ cur.off := by omega
  have hhi : cur.off < 2 ^ 31 := by omega
  simp only [scan_full_iff hlen hlo hhi hrest, FullMatch.of_head hcur, exists_eq_left]
  constructor
  · rintro ⟨p, hleast, rfl, -⟩
    exact hleast
  · intro hleast
    exact ⟨base, hleast, rfl, hleast.1.2⟩

lemma scan_first {cur : Region} {rest : List Region} (hlen : binary.length < 2 ^ 63)
    (hrest : ∀ r ∈ rest, r.Sized) (hcur : cur.off = 0) (pos : ℕ) :
    scan binary cur rest 0 = some pos ↔ IsLeast {q | Matches binary (cur :: rest) q} pos := by
  rw [scan_iff hlen hrest hcur]
  simp only [Nat.zero_le, true_and]

/-- For any pattern and any place to start from: the base of the first full match, or NULL when there
is none, with no byte read outside the file. -/
theorem scan_finds_first (binary : List UInt8) (cur : Region) (rest : List Region) (off : ℕ)
    (hlen : binary.length < 2 ^ 63) (hsized : ∀ r ∈ cur :: rest, r.Sized)
    (hoff : off ≤ binary.length) :
    ∃ found, scanReads binary cur rest off = some found ∧
      (∀ base, found = some base ↔
        ∃ p, IsLeast {q | off ≤ q ∧ ∃ b, FullMatch binary cur rest q b} p ∧
          FullMatch binary cur rest p base) ∧
      (found = none ↔ ∀ q base, off ≤ q → ¬ FullMatch binary cur rest q base) := by
  obtain ⟨hcur, hrest⟩ := List.forall_mem_cons.mp hsized
  have hiff : ∀ base, scan binary cur rest off = some base ↔ _ := fun base =>
    scan_full_iff hlen hcur.off_ge hcur.off_lt hrest
  refine ⟨scan binary cur rest off, scanReads_eq hlen hrest hoff, hiff, fun hnone q b hq hfull => ?_,
    fun hall => ?_⟩
  · have hex : ∃ q, q ∈ {q | off ≤ q ∧ ∃ b, FullMatch binary cur rest q b} := ⟨q, hq, b, hfull⟩
    classical
    have hleast := Nat.isLeast_find hex
    obtain ⟨base, hfirst⟩ := hleast.1.2
    have hsome := (hiff base).mpr ⟨Nat.find hex, hleast, hfirst⟩
    rw [hnone] at hsome
    cases hsome
  · cases hscan : scan binary cur rest off with
    | none => rfl
    | some base =>
      obtain ⟨p, hleast, hfull⟩ := (hiff base).mp hscan
      exact absurd hfull (hall p base hleast.1.1)

/-- The base of the first candidate is in front of the file; the second overlaps it and matches. -/
theorem scan_finds_overlapping :
    ∃ found, scanReads [9, 9, 9, 7, 7, 7, 8] ⟨4, [7, 7], by decide⟩ [⟨6, [8], by decide⟩] 1 = some found ∧
      (∀ base, found = some base ↔
        ∃ p, IsLeast {q | 1 ≤ q ∧ ∃ b,
            FullMatch [9, 9, 9, 7, 7, 7, 8] ⟨4, [7, 7], by decide⟩ [⟨6, [8], by decide⟩] q b} p ∧
          FullMatch [9, 9, 9, 7, 7, 7, 8] ⟨4, [7, 7], by decide⟩ [⟨6, [8], by decide⟩] p base) ∧
      (found = none ↔ ∀ q base, 1 ≤ q →
        ¬ FullMatch [9, 9, 9, 7, 7, 7, 8] ⟨4, [7, 7], by decide⟩ [⟨6, [8], by decide⟩] q base) :=
  scan_finds_first [9, 9, 9, 7, 7, 7, 8] ⟨4, [7, 7], by decide⟩ [⟨6, [8], by decide⟩] 1 (by decide)
    (sized_all (by decide)) (by decide)

end Metroskrew.Patch
