import Metroskrew.Library.Memory
import Metroskrew.Patch.ScanFirst

/-! `find_fs` with its warning: which of the blocks it returns, and when it says that one is left. -/

namespace Metroskrew.Patch

open Metroskrew.Library.Memory

/-- A `struct scan` in memory; `pad` is what lies between `off` and `size`. -/
def structScan (off pad size data : ℕ) : List UInt8 :=
  numberBytes 4 off ++ numberBytes 4 pad ++ numberBytes 8 size ++ numberBytes 8 data

/-- The array `code` as the last `memmem` gets it, the end of the list included; `data` is where the
bytes of the pattern are. -/
def fsArray (pad data pad' : ℕ) : List UInt8 :=
  structScan 0 pad fsCode.data.length data ++ structScan 0 pad' 0 0

variable (binary needle : List UInt8)

def occurrencesFrom (off : ℕ) : List ℕ :=
  (List.range' off (binary.length - off)).filter fun p => needle.isPrefixOf (binary.drop p)

def fsBlocks : List ℕ := occurrencesFrom binary fsCode.data 0

variable {binary needle}

lemma findFsLeft_locs (needle' : List UInt8) (names : List String) (off : ℕ) :
    (findFsLeft binary needle names off).map Prod.fst =
      (findFsLeft binary needle' names off).map Prod.fst := by
  induction names generalizing off with
  | nil =>
    simp only [findFsLeft, memmemFrom]
    cases bytesAt binary off (sizeT (binary.length - off)) <;> rfl
  | cons name names ih =>
    rw [findFsLeft, findFsLeft]
    cases scanReads binary fsCode [] off with
    | none => rfl
    | some found =>
      cases found with
      | none => rfl
      | some pos =>
        have hrest := ih (pos + 1)
        simp only [bind, Option.bind_some]
        cases h : findFsLeft binary needle names (pos + 1) <;>
          cases h' : findFsLeft binary needle' names (pos + 1) <;> simp_all

/-- What `scan_bin` goes by does not depend on what is looked for in the end. -/
theorem findFs_eq (binary needle : List UInt8) :
    (findFsLeft binary needle ["fs_1", "fs_2", "fs_3"] 0).map Prod.fst = findFs binary :=
  findFsLeft_locs [] ["fs_1", "fs_2", "fs_3"] 0

lemma mem_occurrencesFrom {off p : ℕ} (hne : needle ≠ []) :
    p ∈ occurrencesFrom binary needle off ↔ off ≤ p ∧ needle <+: binary.drop p := by
  rw [occurrencesFrom, List.mem_filter, List.mem_range'_1, List.isPrefixOf_iff_prefix]
  constructor
  · rintro ⟨⟨hoff, -⟩, hat⟩
    exact ⟨hoff, hat⟩
  · rintro ⟨hoff, hat⟩
    have hbound := prefix_bound hne hat
    have hpos := List.length_pos_of_ne_nil hne
    exact ⟨⟨hoff, by omega⟩, hat⟩

lemma occurrencesFrom_nil {off : ℕ} (hne : needle ≠ [])
    (h : ∀ q, off ≤ q → ¬ needle <+: binary.drop q) : occurrencesFrom binary needle off = [] := by
  rw [List.eq_nil_iff_forall_not_mem]
  intro p hp
  obtain ⟨hoff, hat⟩ := (mem_occurrencesFrom hne).mp hp
  exact h p hoff hat

lemma occurrencesFrom_cons {off pos : ℕ} (hne : needle ≠ [])
    (h : IsLeast {q | off ≤ q ∧ needle <+: binary.drop q} pos) :
    occurrencesFrom binary needle off = pos :: occurrencesFrom binary needle (pos + 1) := by
  obtain ⟨⟨hoff, hat⟩, hleast⟩ := h
  have hbound := prefix_bound hne hat
  have hpos := List.length_pos_of_ne_nil hne
  have hrange : List.range' off (binary.length - off) =
      List.range' off (pos - off) ++ pos :: List.range' (pos + 1) (binary.length - (pos + 1)) := by
    rw [show binary.length - off = (pos - off) + (binary.length - (pos + 1) + 1) by omega,
      ← List.range'_append_1, show off + (pos - off) = pos by omega]
    rfl
  have hbefore : (List.range' off (pos - off)).filter
      (fun p => needle.isPrefixOf (binary.drop p)) = [] := by
    rw [List.filter_eq_nil_iff]
    intro p hp hpre
    obtain ⟨hlo, hhi⟩ := List.mem_range'_1.mp hp
    have := hleast ⟨hlo, List.isPrefixOf_iff_prefix.mp hpre⟩
    omega
  rw [occurrencesFrom, hrange, List.filter_append, hbefore, List.nil_append, List.filter_cons,
    if_pos (List.isPrefixOf_iff_prefix.mpr hat), occurrencesFrom]

lemma memmem_isSome {hay : List UInt8} : (memmem needle hay).isSome ↔ needle <:+: hay := by
  rw [List.infix_iff_prefix_suffix]
  constructor
  · intro h
    obtain ⟨p, hp⟩ := Option.isSome_iff_exists.mp h
    exact ⟨hay.drop p, memmem_some hp, List.drop_suffix p hay⟩
  · rintro ⟨t, hpre, hsuffix⟩
    rw [List.suffix_iff_eq_drop] at hsuffix
    rw [Option.isSome_iff_ne_none]
    intro hnone
    rw [hsuffix] at hpre
    exact memmem_none hnone _ hpre

def fsLoc (name : String) (pos : ℕ) : Loc := ⟨name, pos, pos + fsCode.data.length, false⟩

lemma scan_single (cur : Region) (hlen : binary.length < 2 ^ 63) (hcur : cur.off = 0) (off pos : ℕ) :
    scan binary cur [] off = some pos ↔ IsLeast {q | off ≤ q ∧ cur.data <+: binary.drop q} pos := by
  have hempty : ∀ q, Matches binary [] q := fun q r hr => absurd hr List.not_mem_nil
  rw [scan_iff hlen (by simp) hcur]
  simp only [Matches.head hcur, hempty, and_true]

/-- One turn of the loop takes the first block that is left. -/
lemma scanReads_block (hlen : binary.length < 2 ^ 63) {off : ℕ} (hoff : off ≤ binary.length) :
    scanReads binary fsCode [] off = some (occurrencesFrom binary fsCode.data off).head? ∧
      ∀ pos, (occurrencesFrom binary fsCode.data off).head? = some pos →
        pos + 1 ≤ binary.length ∧ occurrencesFrom binary fsCode.data off =
          pos :: occurrencesFrom binary fsCode.data (pos + 1) := by
  have hfirst := scan_single fsCode hlen rfl off
  rw [scanReads_eq hlen (by simp) hoff]
  cases hscan : scan binary fsCode [] off with
  | none =>
    have hnone : occurrencesFrom binary fsCode.data off = [] := by
      apply occurrencesFrom_nil fsCode.data_ne
      intro q hq hat
      classical
      have hleast := Nat.isLeast_find (p := fun q => off ≤ q ∧ fsCode.data <+: binary.drop q) ⟨q, hq, hat⟩
      have hsome := (hfirst _).mpr hleast
      rw [hscan] at hsome
      cases hsome
    simp [hnone]
  | some pos =>
    have hleast := (hfirst pos).mp hscan
    have hcons := occurrencesFrom_cons fsCode.data_ne hleast
    have hbound := prefix_bound fsCode.data_ne hleast.1.2
    have hsize : fsCode.data.length = 14 := rfl
    rw [hcons, List.head?_cons]
    refine ⟨rfl, fun pos' hpos' => ?_⟩
    obtain rfl := Option.some.inj hpos'
    exact ⟨by omega, rfl⟩

lemma findFsLeft_occurrences (needle : List UInt8) (hlen : binary.length < 2 ^ 63) (names : List String) {off : ℕ}
    (hoff : off ≤ binary.length) :
    let occ := occurrencesFrom binary fsCode.data off
    ∃ left, findFsLeft binary needle names off = some (names.zipWith fsLoc occ, left) ∧
      (left.isSome ↔ names.length ≤ occ.length ∧
        needle <:+: binary.drop ((occ.take names.length).foldl (fun _ pos => pos + 1) off)) := by
  induction names generalizing off with
  | nil =>
    refine ⟨(memmem needle (binary.drop off)).map (off + ·), ?_, ?_⟩
    · simp only [findFsLeft, memmemFrom_in needle hlen hoff]
      rfl
    · simp [memmem_isSome]
  | cons name names ih =>
    obtain ⟨hscan, hrest⟩ := scanReads_block hlen hoff
    rw [findFsLeft, hscan]
    cases hocc : occurrencesFrom binary fsCode.data off with
    | nil => exact ⟨none, rfl, by simp⟩
    | cons pos occ =>
      obtain ⟨hpos, hcons⟩ := hrest pos (by rw [hocc]; rfl)
      obtain rfl : occ = _ := (List.cons.inj (hocc.symm.trans hcons)).2
      obtain ⟨left, hleft, hiff⟩ := ih hpos
      refine ⟨left, ?_, ?_⟩
      · simp only [List.head?_cons, bind, Option.bind_some, hleft]
        rfl
      · rw [hiff]
        simp

/-- The blocks are the first ones of the file, and the warning is for a file that has more. -/
structure FindsBlocks (binary : List UInt8) (res : List Loc × Option ℕ) : Prop where
  locs : res.1 = ["fs_1", "fs_2", "fs_3"].zipWith fsLoc (fsBlocks binary)
  warns : res.2.isSome ↔ 3 < (fsBlocks binary).length

/-- The bytes of the array occur behind the start of the third block. -/
def ArrayBehind (binary needle : List UInt8) : Prop :=
  ∃ pos, (fsBlocks binary)[2]? = some pos ∧ needle <:+: binary.drop (pos + 1)

lemma findFsLeft_warns (needle : List UInt8) (hlen : binary.length < 2 ^ 63) :
    ∃ left, findFsLeft binary needle ["fs_1", "fs_2", "fs_3"] 0 =
        some (["fs_1", "fs_2", "fs_3"].zipWith fsLoc (fsBlocks binary), left) ∧
      (left.isSome ↔ ArrayBehind binary needle) := by
  obtain ⟨left, hfind, hiff⟩ :=
    findFsLeft_occurrences needle hlen ["fs_1", "fs_2", "fs_3"] (Nat.zero_le binary.length)
  refine ⟨left, hfind, hiff.trans ?_⟩
  rw [ArrayBehind, fsBlocks]
  rcases occurrencesFrom binary fsCode.data 0 with _ | ⟨a, _ | ⟨b, _ | ⟨c, occ⟩⟩⟩ <;> simp

/-- `find_fs` does what its comments say iff the last search comes out by accident: it is for the
array that describes the pattern, and not for the pattern. -/
theorem findFs_iff (binary : List UInt8) (pad data pad' : ℕ) (hlen : binary.length < 2 ^ 63) :
    (∃ res, findFsLeft binary (fsArray pad data pad') ["fs_1", "fs_2", "fs_3"] 0 = some res ∧
        FindsBlocks binary res) ↔
      (fsBlocks binary).length < 3 ∨
      (fsBlocks binary).length = 3 ∧ ¬ ArrayBehind binary (fsArray pad data pad') ∨
      3 < (fsBlocks binary).length ∧ ArrayBehind binary (fsArray pad data pad') := by
  obtain ⟨left, hfind, hleft⟩ := findFsLeft_warns (fsArray pad data pad') hlen
  have hthree : ArrayBehind binary (fsArray pad data pad') → 3 ≤ (fsBlocks binary).length := by
    rintro ⟨pos, hpos, -⟩
    exact (List.getElem?_eq_some_iff.mp hpos).1
  rw [hfind]
  constructor
  · rintro ⟨res, hres, -, hwarns⟩
    obtain rfl := Option.some.inj hres
    rw [hleft] at hwarns
    by_cases harray : ArrayBehind binary (fsArray pad data pad')
    · exact .inr (.inr ⟨hwarns.mp harray, harray⟩)
    · have := mt hwarns.mpr harray
      rcases Nat.lt_or_ge (fsBlocks binary).length 3 with hlt | hge
      · exact .inl hlt
      · exact .inr (.inl ⟨by omega, harray⟩)
  · intro hcond
    refine ⟨_, rfl, rfl, hleft.trans ?_⟩
    rcases hcond with hlt | ⟨heq, harray⟩ | ⟨hlt, harray⟩
    · constructor
      · intro harray
        have := hthree harray
        omega
      · omega
    · simp [heq, harray]
    · simp [hlt, harray]

def fsImage (blocks : ℕ) : List UInt8 := (List.replicate blocks fsCode.data).flatten

theorem findFs_two_blocks :
    ∃ res, findFsLeft (fsImage 2) (fsArray 0 0x404060 0) ["fs_1", "fs_2", "fs_3"] 0 = some res ∧
      FindsBlocks (fsImage 2) res :=
  (findFs_iff (fsImage 2) 0 0x404060 0 (by decide +kernel)).mpr (.inl (by decide +kernel))

/-- Of four blocks three are returned and nothing is said of the fourth, wherever the pattern is in
memory. -/
theorem findFs_misses_leftover : (fsBlocks (fsImage 4)).length = 4 ∧ ∀ pad data pad',
    ∃ locs, findFsLeft (fsImage 4) (fsArray pad data pad') ["fs_1", "fs_2", "fs_3"] 0 =
      some (locs, none) := by
  have hlen : (fsImage 4).length < 2 ^ 63 := by decide +kernel
  refine ⟨by decide +kernel, fun pad data pad' => ?_⟩
  obtain ⟨left, hfind, hiff⟩ := findFsLeft_warns (fsArray pad data pad') hlen
  have hbehind : ¬ ArrayBehind (fsImage 4) (fsArray pad data pad') := by
    rintro ⟨pos, hpos, hinfix⟩
    have hthird : (fsBlocks (fsImage 4))[2]? = some 28 := by decide +kernel
    obtain rfl := Option.some.inj (hthird.symm.trans hpos)
    have hle := hinfix.length_le
    have hrest : ((fsImage 4).drop 29).length = 27 := by decide +kernel
    rw [hrest] at hle
    simp [fsArray, structScan] at hle
  rw [Option.not_isSome_iff_eq_none.mp (mt hiff.mp hbehind)] at hfind
  exact ⟨_, hfind⟩

end Metroskrew.Patch
