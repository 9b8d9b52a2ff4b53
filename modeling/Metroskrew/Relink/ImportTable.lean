import Metroskrew.Library.Concatenation
import Metroskrew.Relink.RawData
import Metroskrew.Relink.SectionRun

/-! `pe_read_import_table`: the slots and the names of all descriptors, which two loops collect into
arrays of their own. -/

namespace Metroskrew.Relink

open Metroskrew.Library.Concatenation

structure ImportDesc where
  origs : ℕ
  stamp : ℕ
  chain : ℕ
  dname : ℕ
  thunk : ℕ
  deriving Repr, DecidableEq

def descAt (mem : List UInt8) (pos : ℕ) : ImportDesc where
  origs := readU32 mem (pos + 0x0)
  stamp := readU32 mem (pos + 0x4)
  chain := readU32 mem (pos + 0x8)
  dname := readU32 mem (pos + 0xc)
  thunk := readU32 mem (pos + 0x10)

def ImportDesc.isZero (d : ImportDesc) : Bool := d = ⟨0, 0, 0, 0, 0⟩

def ImportDesc.complete (d : ImportDesc) : Bool := d.origs ≠ 0 ∧ d.thunk ≠ 0

/-- A descriptor with the words of its lookup table and of its address table. -/
structure ImportRow where
  desc : ImportDesc
  infos : List ℕ
  thunks : List ℕ
  deriving Repr, DecidableEq

variable (file : PeFile)

def wordTable (rva : ℕ) : Option (List ℕ) := do
  let off ← peFindFileOffset file rva
  readThunks (file.f.drop off)

def nameAddrOf (info : ℕ) : ℕ := if info < 0x80000000 then info + 2 else info

def slotAddr (d : ImportDesc) (j : ℕ) : ℕ := file.baseAddr + (d.thunk + 4 * j) % 2 ^ 32

def ImportRow.slots (r : ImportRow) : List ℕ := (List.range r.thunks.length).map (slotAddr file r.desc)

def readRow (d : ImportDesc) : Option ImportRow := do
  let infos ← wordTable file d.origs
  let thunks ← wordTable file d.thunk
  some ⟨d, infos, thunks⟩

/-- The rows of the descriptors up to the first that lacks one of its tables. -/
def readRows : List ImportDesc → Option (List ImportRow)
  | [] => some []
  | d :: ds =>
    if d.complete = true then do
      let r ← readRow file d
      let rs ← readRows ds
      some (r :: rs)
    else some []

def addRows (out : PeImport) (rows : List ImportRow) : PeImport where
  addrNum := out.addrNum + (rows.map fun r => r.thunks.length).sum
  nameNum := out.nameNum + (rows.map fun r => r.infos.length).sum
  impAddr := out.impAddr ++ (rows.map (ImportRow.slots file)).flatten
  dllnameAddr := out.dllnameAddr ++
    (rows.map fun r => List.replicate r.thunks.length r.desc.dname).flatten
  nameAddr := out.nameAddr ++ (rows.map fun r => r.infos.map nameAddrOf).flatten

def importDirectory : List ImportDesc :=
  match peGetDatadir file 1 with
  | none => []
  | some (addr, size) =>
    match peFindFileOffset file addr with
    | none => []
    | some off => (List.range (size / 0x14)).map fun i => descAt file.f (off + 0x14 * i)

variable {file}

lemma addRows_nil (out : PeImport) : addRows file out [] = out := by
  simp [addRows]

lemma addRows_cons (out : PeImport) (r : ImportRow) (rows : List ImportRow) :
    addRows file (addRows file out [r]) rows = addRows file out (r :: rows) := by
  simp [addRows, Nat.add_assoc]

lemma ImportDesc.complete_iff {d : ImportDesc} :
    d.complete = true ↔ d.origs ≠ 0 ∧ d.thunk ≠ 0 := by
  simp [ImportDesc.complete]

lemma peImportLoop_eq (header : List UInt8) (n desc : ℕ) (out : PeImport) :
    peImportLoop file header n desc out =
      (readRows file ((List.range n).map fun i => descAt header (desc + 0x14 * i))).map
        (addRows file out) := by
  induction n generalizing desc out with
  | zero => simp [peImportLoop, readRows, addRows_nil]
  | succ n ih =>
    have hshift : ((List.range (n + 1)).map fun i => descAt header (desc + 0x14 * i)) =
        descAt header desc :: (List.range n).map fun i => descAt header (desc + 0x14 + 0x14 * i) := by
      rw [List.range_succ_eq_map, List.map_cons, List.map_map]
      congr 1
      apply List.map_congr_left
      intro i _
      simp only [Function.comp_apply]
      congr 1
      omega
    have hrest := ih (desc + 0x14)
    rw [hshift, readRows, peImportLoop]
    generalize ((List.range n).map fun i => descAt header (desc + 0x14 + 0x14 * i)) = ds at hrest ⊢
    by_cases hno : readU32 header (desc + 0x0) = 0 ∨ readU32 header (desc + 0x10) = 0
    · have hincomplete : ¬ (descAt header desc).complete = true := by
        rw [ImportDesc.complete_iff]
        rintro ⟨horigs, hthunk⟩
        exact hno.elim horigs hthunk
      rw [if_neg hincomplete, Option.map_some, addRows_nil]
      exact if_pos hno
    · have hcomplete : (descAt header desc).complete = true :=
        ImportDesc.complete_iff.mpr (not_or.mp hno)
      rw [if_pos hcomplete, readRow, wordTable, wordTable]
      simp only [if_neg hno]
      cases horigs : peFindFileOffset file (descAt header desc).origs with
      | none => simp only [descAt] at horigs; rw [horigs]; rfl
      | some origsOff =>
        have horigs' : peFindFileOffset file (readU32 header (desc + 0x0)) = some origsOff := horigs
        cases hthunk : peFindFileOffset file (descAt header desc).thunk with
        | none =>
          have hthunk' : peFindFileOffset file (readU32 header (desc + 0x10)) = none := hthunk
          rw [horigs', hthunk']
          cases hinfos : readThunks (file.f.drop origsOff) <;>
            simp only [bind, Option.bind_some, Option.bind_none, hinfos, Option.map_none]
        | some thunkOff =>
          have hthunk' : peFindFileOffset file (readU32 header (desc + 0x10)) = some thunkOff := hthunk
          rw [horigs', hthunk']
          cases hinfos : readThunks (file.f.drop origsOff) <;>
            cases hthunks : readThunks (file.f.drop thunkOff) <;>
            simp only [bind, Option.bind_some, Option.bind_none, hinfos, hthunks, Option.map_none]
          rw [hrest]
          cases readRows file ds with
          | none => rfl
          | some rows =>
            simp only [Option.map_some, Option.bind_some, Option.some.injEq]
            rw [← addRows_cons]
            congr 1
            simp [addRows, ImportRow.slots, slotAddr, nameAddrOf, descAt]

def importsOf (file : PeFile) (rows : List ImportRow) : PeImport :=
  addRows file { addrNum := 0, nameNum := 0, impAddr := [], dllnameAddr := [], nameAddr := [] } rows

lemma descAt_window (f : List UInt8) {off size i : ℕ} (hi : i < size / 0x14) :
    descAt ((f.drop off).take size) (0 + 0x14 * i) = descAt f (off + 0x14 * i) := by
  have hfit : 0x14 * i + 0x14 ≤ size := by omega
  rw [descAt, descAt, readU32_window f (by omega), readU32_window f (by omega),
    readU32_window f (by omega), readU32_window f (by omega), readU32_window f (by omega)]
  simp only [Nat.zero_add, Nat.add_assoc]

lemma peReadImportTable_eq {addr size off : ℕ} (hdir : peGetDatadir file 1 = some (addr, size))
    (hoff : peFindFileOffset file addr = some off) (hsize : size ≠ 0)
    (hin : off + size ≤ file.f.length) :
    peReadImportTable file = (readRows file (importDirectory file)).map (importsOf file) := by
  have hread : fread file.f off size = some ((file.f.drop off).take size) := by
    rw [fread, if_neg (by omega)]
  have hdescs : importDirectory file = (List.range (size / 0x14)).map fun i =>
      descAt ((file.f.drop off).take size) (0 + 0x14 * i) := by
    simp only [importDirectory, hdir, hoff]
    apply List.map_congr_left
    intro i hi
    exact (descAt_window file.f (List.mem_range.mp hi)).symm
  simp only [peReadImportTable, hdir, hoff, hread, bind, Option.bind_some, peImportLoop_eq, hdescs]
  rfl

lemma peReadImportTable_some {out : PeImport} (h : peReadImportTable file = some out) :
    ∃ rows, readRows file (importDirectory file) = some rows ∧ out = importsOf file rows := by
  have hread := h
  simp only [peReadImportTable, bind, Option.bind_eq_some_iff] at hread
  obtain ⟨⟨addr, size⟩, hdir, off, hoff, header, hheader, -⟩ := hread
  obtain ⟨-, hin⟩ := fread_some hheader
  have hsize : size ≠ 0 := by
    rintro rfl
    simp [fread] at hheader
  rw [peReadImportTable_eq hdir hoff hsize hin] at h
  obtain ⟨rows, hrows, hout⟩ := Option.map_eq_some_iff.mp h
  exact ⟨rows, hrows, hout.symm⟩

structure ImportRow.Read (file : PeFile) (r : ImportRow) : Prop where
  complete : r.desc.complete = true
  infos : wordTable file r.desc.origs = some r.infos
  thunks : wordTable file r.desc.thunk = some r.thunks

lemma readRows_some {ds : List ImportDesc} {rows : List ImportRow}
    (h : readRows file ds = some rows) :
    ∃ rest, ds = rows.map ImportRow.desc ++ rest ∧ (∀ r ∈ rows, r.Read file) ∧
      ∀ d ∈ rest.head?, d.complete = false := by
  induction ds generalizing rows with
  | nil =>
    cases h
    exact ⟨[], rfl, by simp, by simp⟩
  | cons d ds ih =>
    rw [readRows] at h
    split_ifs at h with hd
    · simp only [bind, Option.bind_eq_some_iff, Option.some.injEq] at h
      obtain ⟨r, hr, rs, hrs, rfl⟩ := h
      simp only [readRow, bind, Option.bind_eq_some_iff, Option.some.injEq] at hr
      obtain ⟨infos, hinfos, thunks, hthunks, rfl⟩ := hr
      obtain ⟨rest, rfl, hread, hrest⟩ := ih hrs
      refine ⟨rest, rfl, ?_, hrest⟩
      intro r hr
      rcases List.mem_cons.mp hr with rfl | hr
      · exact ⟨hd, hinfos, hthunks⟩
      · exact hread r hr
    · cases h
      exact ⟨d :: ds, rfl, by simp, by simpa using hd⟩

lemma readRows_append {rows : List ImportRow} {rest : List ImportDesc}
    (hread : ∀ r ∈ rows, r.Read file) (hrest : ∀ d ∈ rest.head?, d.complete = false) :
    readRows file (rows.map ImportRow.desc ++ rest) = some rows := by
  induction rows with
  | nil =>
    cases rest with
    | nil => rfl
    | cons d rest =>
      rw [List.map_nil, List.nil_append, readRows, if_neg (by simp [hrest d rfl])]
  | cons r rows ih =>
    have hr := hread r List.mem_cons_self
    rw [List.map_cons, List.cons_append, readRows, if_pos hr.complete, readRow, hr.infos, hr.thunks,
      ih fun r' hr' => hread r' (List.mem_cons_of_mem r hr')]
    rfl

end Metroskrew.Relink
