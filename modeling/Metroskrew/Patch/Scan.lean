import Metroskrew.Bytes

/-! `scan`: the first place in the binary where every region of a pattern matches. A `size_t` has 64
bits; an offset below zero wraps. -/

namespace Metroskrew.Patch

/-- A region of a pattern: `data` at `off` bytes from the base. A region without data ends the
list of them. -/
structure Region where
  off : ℤ
  data : List UInt8
  data_ne : data ≠ []

def sizeT (n : ℤ) : ℕ := (n % 2 ^ 64).toNat

def memmem (needle : List UInt8) : List UInt8 → Option ℕ
  | [] => if needle.isPrefixOf [] then some 0 else none
  | b :: hay =>
    if needle.isPrefixOf (b :: hay) then some 0 else (· + 1) <$> memmem needle hay

lemma memmem_some {needle hay : List UInt8} {p : ℕ} (h : memmem needle hay = some p) :
    needle <+: hay.drop p := by
  induction hay generalizing p with
  | nil =>
    rw [memmem] at h
    split_ifs at h with hp
    cases h
    exact List.isPrefixOf_iff_prefix.mp hp
  | cons b hay ih =>
    rw [memmem] at h
    split_ifs at h with hp
    · cases h
      exact List.isPrefixOf_iff_prefix.mp hp
    · cases hm : memmem needle hay with
      | none =>
        rw [hm] at h
        cases h
      | some q =>
        rw [hm] at h
        cases h
        exact ih hm

lemma Region.memmem_lt (cur : Region) {hay : List UInt8} {p : ℕ}
    (h : memmem cur.data hay = some p) : p < hay.length := by
  have hle := (memmem_some h).length_le
  have hpos := List.length_pos_of_ne_nil cur.data_ne
  rw [List.length_drop] at hle
  omega

variable (binary : List UInt8)

def restMatch (scanBase : ℕ) (rest : List Region) : Bool :=
  rest.all fun cur =>
    let scanOff := sizeT (scanBase + cur.off)
    !decide (binary.length < scanOff) &&
      !decide (binary.length < (scanOff + cur.data.length) % 2 ^ 64) &&
      (binary.drop scanOff).take cur.data.length == cur.data

def scan (cur : Region) (rest : List Region) (off : ℕ) : Option ℕ :=
  match _ : memmem cur.data (binary.drop off) with
  | none => none
  | some p =>
    let scanBase := sizeT ((off + p : ℕ) - cur.off)
    if binary.length < scanBase then scan cur rest (off + p + 1)
    else if restMatch binary scanBase rest then some scanBase
    else scan cur rest (off + p + 1)
termination_by binary.length + 1 - off
decreasing_by
  all_goals
    have := cur.memmem_lt (by assumption)
    rw [List.length_drop] at this
    omega

def Region.At (cur : Region) (base : ℕ) : Prop :=
  (binary.drop (sizeT (base + cur.off))).take cur.data.length = cur.data

variable {binary}

lemma restMatch_at {base : ℕ} {rest : List Region} (h : restMatch binary base rest = true)
    {cur : Region} (hc : cur ∈ rest) : cur.At binary base := by
  have := List.all_eq_true.mp h cur hc
  simp only [Bool.and_eq_true, beq_iff_eq] at this
  exact this.2

lemma scan_some {cur : Region} {rest : List Region} {off base : ℕ}
    (h : scan binary cur rest off = some base) :
    (∃ p, off ≤ p ∧ base = sizeT (p - cur.off) ∧ (binary.drop p).take cur.data.length = cur.data) ∧
      ∀ r ∈ rest, r.At binary base := by
  fun_induction scan binary cur rest off with
  | case1 off hnone => cases h
  | case2 off p hp scanBase hbase ih =>
    obtain ⟨⟨q, hq, hat⟩, hrest⟩ := ih h
    exact ⟨⟨q, by omega, hat⟩, hrest⟩
  | case3 off p hp scanBase hbase hmatch =>
    have hb : scanBase = base := Option.some.inj h
    rw [← hb]
    have hspan := memmem_some hp
    rw [List.drop_drop] at hspan
    exact ⟨⟨off + p, by omega, rfl, (List.prefix_iff_eq_take.mp hspan).symm⟩,
      fun r hr => restMatch_at hmatch hr⟩
  | case4 off p hp scanBase hbase hmatch ih =>
    obtain ⟨⟨q, hq, hat⟩, hrest⟩ := ih h
    exact ⟨⟨q, by omega, hat⟩, hrest⟩

end Metroskrew.Patch
