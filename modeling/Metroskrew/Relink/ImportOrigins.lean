import Metroskrew.Relink.ImportDecode

/-! Which descriptor the slots and the names of an import table come from, whatever the file. -/

namespace Metroskrew.Relink

open Metroskrew.Library.Concatenation

variable (file : PeFile)

/-- The descriptors before the first that is all zero. -/
def listedImports : List ImportDesc := (importDirectory file).takeWhile fun d => !d.isZero

def slotTable (d : ImportDesc) : Option (List ℕ) :=
  if d.thunk = 0 then some [] else wordTable file d.thunk

def nameTable (d : ImportDesc) : Option (List ℕ) :=
  if d.origs = 0 then some [] else wordTable file d.origs

def slotCount (d : ImportDesc) : ℕ := ((slotTable file d).getD []).length

def nameCount (d : ImportDesc) : ℕ := ((nameTable file d).getD []).length

/-- Slot `k` is slot `j` of descriptor `i`. -/
structure SlotFrom (out : PeImport) (k i j : ℕ) : Prop where
  part : Part ((listedImports file).map (slotCount file)) k i j
  slot : ∃ d, (listedImports file)[i]? = some d ∧ out.impAddr[k]? = some (slotAddr file d j) ∧
    out.dllnameAddr[k]? = some d.dname

/-- Name `k` is entry `j` of the lookup table of descriptor `i`. -/
structure NameFrom (out : PeImport) (k i j : ℕ) : Prop where
  part : Part ((listedImports file).map (nameCount file)) k i j
  name : ∃ d infos w, (listedImports file)[i]? = some d ∧ nameTable file d = some infos ∧
    infos[j]? = some w ∧ out.nameAddr[k]? = some (nameAddrOf w)

structure Attributed (out : PeImport) : Prop where
  same_num : out.addrNum = out.nameNum
  same_origin : ∀ k < out.addrNum, ∃ i j, SlotFrom file out k i j ∧ NameFrom file out k i j
  contributed : ∀ (i : ℕ) (d : ImportDesc), (listedImports file)[i]? = some d →
    ∃ slots, slotTable file d = some slots ∧ ∀ j < slots.length, ∃ k, SlotFrom file out k i j

/-- The two tables of a descriptor have the same length, as long as none lacked a table so far; from
there on no descriptor has slots. -/
def Matched : Prop :=
  ∀ (i : ℕ) (d : ImportDesc), (listedImports file)[i]? = some d →
    if ((listedImports file).take (i + 1)).all ImportDesc.complete = true then
      nameCount file d = slotCount file d
    else slotTable file d = some []

variable {file} {rows : List ImportRow} {rest : List ImportDesc} {k i j : ℕ}

/-- The rows read are those of the first listed descriptors, up to one that lacks a table. -/
structure Cut (file : PeFile) (rows : List ImportRow) (rest : List ImportDesc) : Prop where
  listed : listedImports file = rows.map ImportRow.desc ++ rest
  read : ∀ r ∈ rows, r.Read file
  stop : ∀ d ∈ rest.head?, d.complete = false

lemma cut_of_readRows (h : readRows file (importDirectory file) = some rows) :
    ∃ rest, Cut file rows rest := by
  obtain ⟨rest, hsplit, hread, hstop⟩ := readRows_some h
  refine ⟨rest.takeWhile fun d => !d.isZero, ?_, hread, ?_⟩
  · rw [listedImports, hsplit, List.takeWhile_append_of_pos]
    intro d hd
    obtain ⟨r, hr, rfl⟩ := List.mem_map.mp hd
    have hcomplete := ImportDesc.complete_iff.mp (hread r hr).complete
    have hne : r.desc ≠ ⟨0, 0, 0, 0, 0⟩ := fun he => hcomplete.1 (by rw [he])
    simpa [ImportDesc.isZero] using hne
  · intro d hd
    apply hstop d
    cases rest with
    | nil => cases hd
    | cons d' rest =>
      rw [List.takeWhile_cons] at hd
      split_ifs at hd
      · exact hd
      · cases hd

lemma ImportRow.Read.slotTable {r : ImportRow} (h : r.Read file) :
    slotTable file r.desc = some r.thunks := by
  rw [Relink.slotTable, if_neg (ImportDesc.complete_iff.mp h.complete).2, h.thunks]

lemma ImportRow.Read.nameTable {r : ImportRow} (h : r.Read file) :
    nameTable file r.desc = some r.infos := by
  rw [Relink.nameTable, if_neg (ImportDesc.complete_iff.mp h.complete).1, h.infos]

lemma Cut.slotCounts (h : Cut file rows rest) : (listedImports file).map (slotCount file) =
    (rows.map fun r => r.thunks.length) ++ rest.map (slotCount file) := by
  rw [h.listed, List.map_append, List.map_map]
  congr 1
  apply List.map_congr_left
  intro r hr
  simp [slotCount, (h.read r hr).slotTable]

lemma Cut.nameCounts (h : Cut file rows rest) : (listedImports file).map (nameCount file) =
    (rows.map fun r => r.infos.length) ++ rest.map (nameCount file) := by
  rw [h.listed, List.map_append, List.map_map]
  congr 1
  apply List.map_congr_left
  intro r hr
  simp [nameCount, (h.read r hr).nameTable]

lemma Cut.desc_at (h : Cut file rows rest) {r : ImportRow} (hr : rows[i]? = some r) :
    (listedImports file)[i]? = some r.desc := by
  have hlt := (List.getElem?_eq_some_iff.mp hr).1
  rw [h.listed, List.getElem?_append_left (by simpa using hlt), List.getElem?_map, hr]
  rfl

lemma row_of_part {g : ImportRow → ℕ} (hpart : Part (rows.map g) k i j) :
    ∃ r, rows[i]? = some r ∧ j < g r := by
  obtain ⟨n, hn, hj⟩ := hpart.length
  rw [List.getElem?_map, Option.map_eq_some_iff] at hn
  obtain ⟨r, hr, rfl⟩ := hn
  exact ⟨r, hr, hj⟩

lemma Cut.slotFrom (h : Cut file rows rest) (hpart : Part (rows.map fun r => r.thunks.length) k i j) :
    SlotFrom file (importsOf file rows) k i j := by
  obtain ⟨r, hr, hj⟩ := row_of_part hpart
  refine ⟨h.slotCounts ▸ hpart.append, r.desc, h.desc_at hr, ?_, ?_⟩
  · have hlens : (rows.map (ImportRow.slots file)).map List.length =
        rows.map fun r => r.thunks.length := by
      simp [ImportRow.slots, Function.comp_def]
    rw [importsOf_impAddr, Part.getElem?_flatten (hlens ▸ hpart), List.getElem?_map, hr]
    simp [ImportRow.slots, hj]
  · have hlens : (rows.map fun r => List.replicate r.thunks.length r.desc.dname).map List.length =
        rows.map fun r => r.thunks.length := by
      simp [Function.comp_def]
    rw [importsOf_dllnameAddr, Part.getElem?_flatten (hlens ▸ hpart), List.getElem?_map, hr]
    exact List.getElem?_replicate_of_lt hj

lemma Cut.nameFrom (h : Cut file rows rest) (hpart : Part (rows.map fun r => r.infos.length) k i j) :
    NameFrom file (importsOf file rows) k i j := by
  obtain ⟨r, hr, hj⟩ := row_of_part hpart
  have hread := h.read r (List.mem_of_getElem? hr)
  refine ⟨h.nameCounts ▸ hpart.append, r.desc, r.infos, r.infos[j], h.desc_at hr, hread.nameTable,
    List.getElem?_eq_getElem hj, ?_⟩
  have hlens : (rows.map fun r => r.infos.map nameAddrOf).map List.length =
      rows.map fun r => r.infos.length := by
    simp [Function.comp_def]
  rw [importsOf_nameAddr, Part.getElem?_flatten (hlens ▸ hpart), List.getElem?_map, hr]
  simp [hj]

lemma Cut.part_of_slotFrom (h : Cut file rows rest) (hs : SlotFrom file (importsOf file rows) k i j) :
    Part (rows.map fun r => r.thunks.length) k i j := by
  obtain ⟨hpart, d, -, hslot, -⟩ := hs
  rw [h.slotCounts] at hpart
  apply hpart.of_append
  have hlen := (List.getElem?_eq_some_iff.mp hslot).1
  rw [importsOf_impAddr, List.length_flatten] at hlen
  simpa [ImportRow.slots, Function.comp_def] using hlen

lemma Cut.part_of_nameFrom (h : Cut file rows rest) (hn : NameFrom file (importsOf file rows) k i j) :
    Part (rows.map fun r => r.infos.length) k i j := by
  obtain ⟨hpart, d, infos, w, -, -, -, hname⟩ := hn
  rw [h.nameCounts] at hpart
  apply hpart.of_append
  have hlen := (List.getElem?_eq_some_iff.mp hname).1
  rw [importsOf_nameAddr, List.length_flatten] at hlen
  simpa [Function.comp_def] using hlen

lemma Cut.complete_before (h : Cut file rows rest) (hi : i < rows.length) :
    ((listedImports file).take (i + 1)).all ImportDesc.complete = true := by
  rw [List.all_eq_true]
  intro e he
  rw [h.listed, List.take_append_of_le_length (by simpa using hi)] at he
  obtain ⟨r, hr, rfl⟩ := List.mem_map.mp (List.mem_of_mem_take he)
  exact (h.read r hr).complete

lemma Cut.incomplete_after (h : Cut file rows rest) {d : ImportDesc} (hi : rows.length ≤ i)
    (hd : (listedImports file)[i]? = some d) :
    ¬ ((listedImports file).take (i + 1)).all ImportDesc.complete = true := by
  rw [List.all_eq_true]
  have hlt := (List.getElem?_eq_some_iff.mp hd).1
  rw [h.listed] at hlt ⊢
  cases rest with
  | nil =>
    simp at hlt
    omega
  | cons d' rest =>
    intro hall
    have hmem : d' ∈ (rows.map ImportRow.desc ++ d' :: rest).take (i + 1) := by
      rw [List.take_append, List.mem_append, List.length_map,
        show i + 1 - rows.length = i - rows.length + 1 by omega]
      exact .inr List.mem_cons_self
    have := h.stop d' rfl
    rw [hall d' hmem] at this
    cases this

lemma Cut.matched_iff (h : Cut file rows rest) :
    Matched file ↔ (∀ r ∈ rows, r.infos.length = r.thunks.length) ∧
      ∀ d ∈ rest, slotTable file d = some [] := by
  constructor
  · intro hmatched
    refine ⟨fun r hr => ?_, fun d hd => ?_⟩
    · obtain ⟨i, hi, rfl⟩ := List.mem_iff_getElem.mp hr
      have hmatch := hmatched i _ (h.desc_at (List.getElem?_eq_getElem hi))
      rw [if_pos (h.complete_before hi)] at hmatch
      simpa [nameCount, slotCount, (h.read _ hr).slotTable, (h.read _ hr).nameTable] using hmatch
    · obtain ⟨i, hi, rfl⟩ := List.mem_iff_getElem.mp hd
      have hat : (listedImports file)[rows.length + i]? = some rest[i] := by
        rw [h.listed, List.getElem?_append_right (by simp), List.length_map,
          Nat.add_sub_cancel_left, List.getElem?_eq_getElem hi]
      have hmatch := hmatched _ _ hat
      rwa [if_neg (h.incomplete_after (Nat.le_add_right ..) hat)] at hmatch
  · rintro ⟨hrows, hrest⟩ i d hd
    by_cases hi : i < rows.length
    · rw [if_pos (h.complete_before hi)]
      rw [h.desc_at (List.getElem?_eq_getElem hi)] at hd
      obtain rfl := Option.some.inj hd
      have hr := List.getElem_mem hi
      simpa [nameCount, slotCount, (h.read _ hr).slotTable, (h.read _ hr).nameTable] using hrows _ hr
    · rw [if_neg (h.incomplete_after (Nat.le_of_not_lt hi) hd)]
      rw [h.listed, List.getElem?_append_right (by simpa using hi)] at hd
      exact hrest d (List.mem_of_getElem? hd)

lemma Cut.attributed (h : Cut file rows rest)
    (hrows : ∀ r ∈ rows, r.infos.length = r.thunks.length)
    (hrest : ∀ d ∈ rest, slotTable file d = some []) :
    Attributed file (importsOf file rows) := by
  have hsame : (rows.map fun r => r.infos.length) = rows.map fun r => r.thunks.length :=
    List.map_congr_left hrows
  refine ⟨?_, ?_, ?_⟩
  · rw [importsOf_addrNum, importsOf_nameNum, hsame]
  · intro k hk
    rw [importsOf_addrNum] at hk
    obtain ⟨i, j, hpart⟩ := exists_part hk
    exact ⟨i, j, h.slotFrom hpart, h.nameFrom (hsame ▸ hpart)⟩
  · intro i d hd
    by_cases hi : i < rows.length
    · rw [h.desc_at (List.getElem?_eq_getElem hi)] at hd
      obtain rfl := Option.some.inj hd
      refine ⟨_, (h.read _ (List.getElem_mem hi)).slotTable, fun j hj => ?_⟩
      exact ⟨_, h.slotFrom (part_offset (by rw [List.getElem?_map, List.getElem?_eq_getElem hi]; rfl) hj)⟩
    · rw [h.listed, List.getElem?_append_right (by simpa using hi)] at hd
      exact ⟨[], hrest d (List.mem_of_getElem? hd), by simp⟩

lemma Cut.of_attributed (h : Cut file rows rest) (ha : Attributed file (importsOf file rows)) :
    (∀ r ∈ rows, r.infos.length = r.thunks.length) ∧ ∀ d ∈ rest, slotTable file d = some [] := by
  constructor
  · have hsame : (rows.map fun r => r.thunks.length) = rows.map fun r => r.infos.length := by
      refine eq_of_part (by simp) ?_ fun k hk => ?_
      · have := ha.same_num
        rwa [importsOf_addrNum, importsOf_nameNum] at this
      · obtain ⟨i, j, hs, hn⟩ := ha.same_origin k (by rwa [importsOf_addrNum])
        exact ⟨i, j, h.part_of_slotFrom hs, h.part_of_nameFrom hn⟩
    exact fun r hr => (List.map_inj_left.mp hsame r hr).symm
  · intro d hd
    obtain ⟨i, hi, rfl⟩ := List.mem_iff_getElem.mp hd
    have hat : (listedImports file)[rows.length + i]? = some rest[i] := by
      rw [h.listed, List.getElem?_append_right (by simp), List.length_map,
        Nat.add_sub_cancel_left, List.getElem?_eq_getElem hi]
    obtain ⟨slots, hslots, hall⟩ := ha.contributed _ _ hat
    rw [hslots, Option.some.injEq]
    by_contra hne
    obtain ⟨k, hk⟩ := hall 0 (List.length_pos_of_ne_nil hne)
    obtain ⟨r, hr, _⟩ := row_of_part (h.part_of_slotFrom hk)
    have := (List.getElem?_eq_some_iff.mp hr).1
    omega

/-- Nothing is misattributed or dropped iff tables come in pairs of equal length, up to where no
slots are left. -/
theorem attributed_iff (file : PeFile) (out : PeImport) (h : peReadImportTable file = some out) :
    Attributed file out ↔ Matched file := by
  obtain ⟨rows, hrows, rfl⟩ := peReadImportTable_some h
  obtain ⟨rest, hcut⟩ := cut_of_readRows hrows
  rw [hcut.matched_iff]
  exact ⟨hcut.of_attributed, fun hm => hcut.attributed hm.1 hm.2⟩

theorem attributed_two : ∃ out, peReadImportTable importFile = some out ∧ out.addrNum = 3 ∧
    Attributed importFile out := by
  have hread : peReadImportTable importFile = some (importsOf importFile [importK.row, importM.row]) := by
    decide +kernel
  refine ⟨_, hread, rfl, (attributed_iff _ _ hread).mpr fun i d hd => ?_⟩
  have hlisted : listedImports importFile = [importK.row.desc, importM.row.desc] := by decide +kernel
  rw [hlisted] at hd ⊢
  have hi : i < 2 := (List.getElem?_eq_some_iff.mp hd).1
  interval_cases i
  · obtain rfl := Option.some.inj hd
    decide +kernel
  · obtain rfl := Option.some.inj hd
    decide +kernel

def unevenImage : List UInt8 :=
  List.replicate 0x3c 0 ++ word 0x40 ++
    peBytes 1 0x78 0x1000 0x400000 [(0, 0), (0x1010, 0x3c), (0, 0)] ++
    sectionBytes (ascii ".idata") 0x54 0x1000 0x54 0xf8 0xc0000040 ++
    word 0x1050 ++ word 0 ++ word 0x1050 ++ word 0 ++
    word 0x1004 ++ word 0 ++ word 0 ++ word 0x104c ++ word 0x1000 ++
    word 0x1008 ++ word 0 ++ word 0 ++ word 0x104e ++ word 0x100c ++ List.replicate 20 0 ++
    ascii "a" ++ [0] ++ ascii "b" ++ [0] ++ [0, 0] ++ ascii "f" ++ [0]

def unevenFile : PeFile where
  f := unevenImage
  headerOff := 0x40
  datadirOff := 0xb8
  sectionsOff := 0xd0
  sectionsNum := 1
  entrypoint := 0x1000
  baseAddr := 0x400000
  datadirNum := 3

theorem name_misattributed : peOpenReadHeader unevenImage = some unevenFile ∧
    ∃ out, peReadImportTable unevenFile = some out ∧ out.addrNum = out.nameNum ∧
      ¬ Attributed unevenFile out := by
  refine ⟨by decide +kernel, ⟨1, 1, [0x401000], [0x104c], [0x1052]⟩, by decide +kernel, rfl,
    fun h => ?_⟩
  obtain ⟨i, j, hslot, hname⟩ := h.same_origin 0 Nat.one_pos
  have hslots : (listedImports unevenFile).map (slotCount unevenFile) = [1, 0] := by decide +kernel
  have hnames : (listedImports unevenFile).map (nameCount unevenFile) = [0, 1] := by decide +kernel
  obtain ⟨hi, -⟩ := Part.unique (hslots ▸ hslot.part) (.head Nat.one_pos)
  obtain ⟨hi', -⟩ := Part.unique (hnames ▸ hname.part) (.tail (.head Nat.one_pos))
  omega

end Metroskrew.Relink
