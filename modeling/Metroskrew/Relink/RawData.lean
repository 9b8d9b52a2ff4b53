import Metroskrew.Relink.PeFile

/-! The raw data of the sections, and `pe_find_file_offset` as the place an address has in it. -/

namespace Metroskrew.Relink

variable (file : PeFile)

def rawAddress (k : ℕ) : ℕ := readU32 file.f (file.sectionsOff + 0x28 * k + 0x0c)

def rawSize (k : ℕ) : ℕ := readU32 file.f (file.sectionsOff + 0x28 * k + 0x10)

def rawOffset (k : ℕ) : ℕ := readU32 file.f (file.sectionsOff + 0x28 * k + 0x14)

def SectionTable : Prop :=
  file.sectionsNum ≠ 0 ∧ file.sectionsOff + 0x28 * file.sectionsNum ≤ file.f.length

structure Within (k rva size : ℕ) : Prop where
  lt : k < file.sectionsNum
  lo : rawAddress file k ≤ rva
  hi : rva + size ≤ rawAddress file k + rawSize file k

/-- Section `k` is the first that holds the address. -/
structure Home (k rva : ℕ) : Prop where
  within : Within file k rva 1
  first : ∀ j < k, ¬ Within file j rva 1

def filePos (k rva : ℕ) : ℕ := rva - rawAddress file k + rawOffset file k

/-- The range is raw data, and the file has it from `pos` on. -/
def RawAt (rva size pos : ℕ) : Prop :=
  ∃ k, Within file k rva size ∧ pos = filePos file k rva ∧ pos + size ≤ file.f.length

def SectionsApart : Prop := ∀ j k rva, Within file j rva 1 → Within file k rva 1 → j = k

variable {file}

lemma readU32_drop (mem : List UInt8) (p k : ℕ) :
    readU32 (mem.drop p) k = readU32 mem (p + k) := by
  simp [readU32, List.getD_eq_getElem?_getD, Nat.add_assoc]

lemma readU16_window (mem : List UInt8) {pos size k : ℕ} (h : k + 2 ≤ size) :
    readU16 ((mem.drop pos).take size) k = readU16 mem (pos + k) := by
  simp only [readU16, getD_window mem (show k < size by omega),
    getD_window mem (show k + 1 < size by omega), Nat.add_assoc]

lemma Home.unique {j k rva : ℕ} (hj : Home file j rva) (hk : Home file k rva) : j = k := by
  rcases lt_trichotomy j k with hlt | heq | hgt
  · exact absurd hj.within (hk.first j hlt)
  · exact heq
  · exact absurd hk.within (hj.first k hgt)

lemma peFindFileOffsetLoop_iff (hdrs : List UInt8) (addr n x off : ℕ) :
    peFindFileOffsetLoop hdrs addr n x = some off ↔
      ∃ k, (x ≤ k ∧ k < x + n) ∧
        (readU32 (hdrs.drop (0x28 * k)) 0x0c ≤ addr ∧
          addr < readU32 (hdrs.drop (0x28 * k)) 0x0c + readU32 (hdrs.drop (0x28 * k)) 0x10) ∧
        (∀ j, x ≤ j → j < k → ¬ (readU32 (hdrs.drop (0x28 * j)) 0x0c ≤ addr ∧
          addr < readU32 (hdrs.drop (0x28 * j)) 0x0c + readU32 (hdrs.drop (0x28 * j)) 0x10)) ∧
        off = addr - readU32 (hdrs.drop (0x28 * k)) 0x0c + readU32 (hdrs.drop (0x28 * k)) 0x14 := by
  induction n generalizing x with
  | zero =>
    simp only [peFindFileOffsetLoop, reduceCtorEq, false_iff]
    rintro ⟨k, hk, -⟩
    omega
  | succ n ih =>
    rw [peFindFileOffsetLoop]
    by_cases hx : readU32 (hdrs.drop (0x28 * x)) 0x0c ≤ addr ∧
        addr < readU32 (hdrs.drop (0x28 * x)) 0x0c + readU32 (hdrs.drop (0x28 * x)) 0x10
    · rw [if_pos hx, Option.some.injEq]
      constructor
      · intro hoff
        exact ⟨x, ⟨le_rfl, by omega⟩, hx, fun j _ _ => by omega, hoff.symm⟩
      · rintro ⟨k, hk, hin, hfirst, rfl⟩
        rcases eq_or_lt_of_le hk.1 with rfl | hlt
        · rfl
        · exact absurd hx (hfirst x le_rfl hlt)
    · rw [if_neg hx, ih]
      constructor
      · rintro ⟨k, hk, hin, hfirst, hoff⟩
        refine ⟨k, ⟨by omega, by omega⟩, hin, fun j hj hjk => ?_, hoff⟩
        rcases eq_or_lt_of_le hj with rfl | hlt
        · exact hx
        · exact hfirst j hlt hjk
      · rintro ⟨k, hk, hin, hfirst, hoff⟩
        have hne : x ≠ k := by
          rintro rfl
          exact hx hin
        exact ⟨k, ⟨by omega, by omega⟩, hin, fun j hj => hfirst j (by omega), hoff⟩

lemma header_word {k w : ℕ} (hk : k < file.sectionsNum) (hw : w + 4 ≤ 0x28) :
    readU32 (((file.f.drop file.sectionsOff).take (0x28 * file.sectionsNum)).drop (0x28 * k)) w =
      readU32 file.f (file.sectionsOff + 0x28 * k + w) := by
  rw [readU32_drop, readU32_window _ (by omega), Nat.add_assoc]

theorem peFindFileOffset_iff {rva off : ℕ} :
    peFindFileOffset file rva = some off ↔
      SectionTable file ∧ ∃ k, Home file k rva ∧ off = filePos file k rva := by
  have hheld : ∀ k, k < file.sectionsNum → (Within file k rva 1 ↔
      rawAddress file k ≤ rva ∧ rva < rawAddress file k + rawSize file k) :=
    fun k hk => ⟨fun h => ⟨h.lo, h.hi⟩, fun h => ⟨hk, h.1, h.2⟩⟩
  rw [peFindFileOffset, fread]
  split_ifs with hread
  · simp only [Option.bind_eq_bind, Option.bind_none, reduceCtorEq, false_iff, SectionTable]
    rintro ⟨⟨hnum, hlen⟩, -⟩
    omega
  · have htable : SectionTable file := ⟨by omega, by omega⟩
    simp only [Option.bind_eq_bind, Option.bind_some, peFindFileOffsetLoop_iff, htable, true_and]
    constructor
    · rintro ⟨k, ⟨_, hk⟩, hin, hfirst, hoff⟩
      have hk' : k < file.sectionsNum := by omega
      rw [header_word hk' (by decide), header_word hk' (by decide)] at hin hoff
      refine ⟨k, ⟨(hheld k hk').mpr hin, fun j hj hwithin => ?_⟩, hoff⟩
      have hj' : j < file.sectionsNum := by omega
      have hnot := hfirst j (Nat.zero_le j) hj
      rw [header_word hj' (by decide), header_word hj' (by decide)] at hnot
      exact hnot ((hheld j hj').mp hwithin)
    · rintro ⟨k, ⟨hwithin, hfirst⟩, hoff⟩
      have hk := hwithin.lt
      refine ⟨k, ⟨Nat.zero_le k, by omega⟩, ?_, fun j _ hj hin => ?_, ?_⟩
      · rw [header_word hk (by decide), header_word hk (by decide)]
        exact (hheld k hk).mp hwithin
      · have hj' : j < file.sectionsNum := by omega
        rw [header_word hj' (by decide), header_word hj' (by decide)] at hin
        exact hfirst j hj ((hheld j hj').mpr hin)
      · rw [header_word hk (by decide), header_word hk (by decide)]
        exact hoff

lemma Within.sub {k rva size i : ℕ} (h : Within file k rva size) (hi : i < size) :
    Within file k (rva + i) 1 where
  lt := h.lt
  lo := h.lo.trans (Nat.le_add_right rva i)
  hi := by
    have := h.hi
    omega

lemma RawAt.find (htable : SectionTable file) (hapart : SectionsApart file) {rva size pos i : ℕ}
    (h : RawAt file rva size pos) (hi : i < size) :
    peFindFileOffset file (rva + i) = some (pos + i) := by
  obtain ⟨k, hwithin, rfl, _⟩ := h
  have hk := hwithin.sub hi
  refine peFindFileOffset_iff.mpr ⟨htable, k, ⟨hk, fun j hj hwithin' => ?_⟩, ?_⟩
  · exact hj.ne (hapart j k _ hwithin' hk)
  · have := hwithin.lo
    unfold filePos
    omega

end Metroskrew.Relink
