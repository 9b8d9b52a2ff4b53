import Metroskrew.Relink.Image
import Metroskrew.Relink.RawData

/-! `pe_read_export_table`: the three tables of an export directory and what comes of them. -/

namespace Metroskrew.Relink

def exportEntries (file : PeFile) (names ords nameNum : ℕ) : List (ℕ × ℕ) :=
  (List.range nameNum).map fun x =>
    (readU16 file.f (ords + 2 * x), readU32 file.f (names + 4 * x))

def lastName (entries : List (ℕ × ℕ)) (o : ℕ) : Option ℕ :=
  (entries.reverse.find? fun e => e.1 = o).map Prod.snd

lemma lastName_nil (o : ℕ) : lastName [] o = none := rfl

lemma lastName_cons (e : ℕ × ℕ) (entries : List (ℕ × ℕ)) (o : ℕ) :
    lastName (e :: entries) o = (lastName entries o).or (if e.1 = o then some e.2 else none) := by
  rw [lastName, lastName, List.reverse_cons, List.find?_append]
  cases entries.reverse.find? fun e => e.1 = o with
  | some e' => rfl
  | none =>
    by_cases he : e.1 = o
    · simp [he]
    · simp [he]

lemma lastName_eq_none {entries : List (ℕ × ℕ)} {o : ℕ} :
    lastName entries o = none ↔ ∀ e ∈ entries, e.1 ≠ o := by
  simp [lastName]

lemma lastName_last {entries : List (ℕ × ℕ)} {x o rva : ℕ} (hx : entries[x]? = some (o, rva))
    (hlast : ∀ y e, x < y → entries[y]? = some e → e.1 ≠ o) : lastName entries o = some rva := by
  induction entries generalizing x with
  | nil => cases hx
  | cons e entries ih =>
    rw [lastName_cons]
    cases x with
    | zero =>
      obtain rfl : e = (o, rva) := Option.some.inj hx
      have hnone : lastName entries o = none := by
        rw [lastName_eq_none]
        intro e' he'
        obtain ⟨y, hy, rfl⟩ := List.mem_iff_getElem.mp he'
        exact hlast (y + 1) _ (Nat.succ_pos y) (List.getElem?_eq_getElem hy)
      rw [hnone, if_pos rfl]
      rfl
    | succ x =>
      rw [ih hx fun y e' hy he' => hlast (y + 1) e' (Nat.succ_lt_succ hy) he']
      rfl

lemma peNameAddrs_eq (funcNum : ℕ) (nameTab ordsTab : List UInt8) (n x : ℕ) (out : List ℕ)
    (hout : out.length = funcNum) :
    peNameAddrs funcNum nameTab ordsTab n x out =
      (List.range funcNum).map fun o =>
        (lastName ((List.range' x n).map fun k =>
          (readU16 ordsTab (2 * k), readU32 nameTab (4 * k))) o).getD (out.getD o 0) := by
  induction n generalizing x out with
  | zero =>
    apply List.ext_getElem
    · simp [peNameAddrs, hout]
    · intro o ho _
      have hlt : o < out.length := ho
      simp [peNameAddrs, lastName_nil, hlt]
  | succ n ih =>
    rw [peNameAddrs, ih]
    · rw [List.range'_succ, List.map_cons]
      apply List.map_congr_left
      intro o ho
      rw [List.mem_range] at ho
      rw [lastName_cons]
      cases lastName _ o with
      | some rva => rfl
      | none =>
        by_cases hord : readU16 ordsTab (2 * x) = o
        · have hlt : o < out.length := hout ▸ ho
          rw [if_neg (show ¬ funcNum ≤ readU16 ordsTab (2 * x) by omega)]
          simp [hord, hlt]
        · rw [if_neg hord]
          split_ifs
          · rfl
          · simp [List.getD_eq_getElem?_getD, List.getElem?_set_ne hord]
    · split_ifs
      · exact hout
      · rw [List.length_set, hout]

variable (file : PeFile)

def exportFuncNum (off : ℕ) : ℕ := readU32 file.f (off + 0x14)

def exportNameNum (off : ℕ) : ℕ := readU32 file.f (off + 0x18)

/-- What the directory at file offset `off` makes of its tables. -/
def readExports (off funcs names ords : ℕ) : PeExport where
  dllname := readU32 file.f (off + 0x0c)
  funcNum := exportFuncNum file off
  nameNum := exportNameNum file off
  funcAddr := (List.range (exportFuncNum file off)).map fun x =>
    file.baseAddr + readU32 file.f (funcs + 4 * x)
  nameAddr := (List.range (exportFuncNum file off)).map fun o =>
    (lastName (exportEntries file names ords (exportNameNum file off)) o).getD 0

/-- The reads that `pe_read_export_table` wants to succeed. -/
structure ExportRead (addr off funcs names ords : ℕ) : Prop where
  header : off + 0x28 ≤ file.f.length
  funcs_at : (readU32 file.f (off + 0x1c) : ℤ) - addr + off = funcs
  names_at : (readU32 file.f (off + 0x20) : ℤ) - addr + off = names
  ords_at : (readU32 file.f (off + 0x24) : ℤ) - addr + off = ords
  funcs_num : exportFuncNum file off ≠ 0
  names_num : exportNameNum file off ≠ 0
  funcs_in : funcs + 4 * exportFuncNum file off ≤ file.f.length
  names_in : names + 4 * exportNameNum file off ≤ file.f.length
  ords_in : ords + 4 * exportNameNum file off ≤ file.f.length

variable {file}

lemma fread_iff {f buf : List UInt8} {pos size : ℕ} :
    fread f pos size = some buf ↔
      size ≠ 0 ∧ pos + size ≤ f.length ∧ buf = (f.drop pos).take size := by
  rw [fread]
  split_ifs with h
  · simp only [false_iff]
    omega
  · rw [Option.some.injEq, eq_comm]
    exact ⟨fun hbuf => ⟨by omega, by omega, hbuf⟩, fun hbuf => hbuf.2.2⟩

lemma fseek_iff {z : ℤ} {pos : ℕ} : fseek z = some pos ↔ z = pos := by
  rw [fseek]
  split_ifs with h
  · rw [Option.some.injEq]
    omega
  · simp only [false_iff]
    omega

lemma readExports_windows (off funcs names ords : ℕ) :
    ({ dllname := readU32 ((file.f.drop off).take 0x28) 0x0c
       funcNum := readU32 ((file.f.drop off).take 0x28) 0x14
       nameNum := readU32 ((file.f.drop off).take 0x28) 0x18
       funcAddr := (List.range (readU32 ((file.f.drop off).take 0x28) 0x14)).map fun x =>
        file.baseAddr + readU32
          ((file.f.drop funcs).take (4 * readU32 ((file.f.drop off).take 0x28) 0x14)) (4 * x)
       nameAddr := peNameAddrs (readU32 ((file.f.drop off).take 0x28) 0x14)
        ((file.f.drop names).take (4 * readU32 ((file.f.drop off).take 0x28) 0x18))
        ((file.f.drop ords).take (4 * readU32 ((file.f.drop off).take 0x28) 0x18))
        (readU32 ((file.f.drop off).take 0x28) 0x18) 0
        (List.replicate (readU32 ((file.f.drop off).take 0x28) 0x14) 0) } : PeExport) =
      readExports file off funcs names ords := by
  rw [peNameAddrs_eq _ _ _ _ _ _ (List.length_replicate ..)]
  simp only [readU32_window file.f (show 0x0c + 4 ≤ 0x28 by decide),
    readU32_window file.f (show 0x14 + 4 ≤ 0x28 by decide),
    readU32_window file.f (show 0x18 + 4 ≤ 0x28 by decide)]
  rw [readExports, PeExport.mk.injEq]
  refine ⟨rfl, rfl, rfl, ?_, ?_⟩
  · apply List.map_congr_left
    intro x hx
    rw [List.mem_range] at hx
    rw [readU32_window file.f (by omega)]
  · apply List.map_congr_left
    intro o _
    have hentries : (List.range' 0 (readU32 file.f (off + 0x18))).map (fun k =>
        (readU16 ((file.f.drop ords).take (4 * readU32 file.f (off + 0x18))) (2 * k),
          readU32 ((file.f.drop names).take (4 * readU32 file.f (off + 0x18))) (4 * k))) =
        exportEntries file names ords (exportNameNum file off) := by
      rw [exportEntries, List.range_eq_range']
      apply List.map_congr_left
      intro k hk
      rw [List.mem_range'_1] at hk
      have hlt : k < readU32 file.f (off + 0x18) := by omega
      rw [readU16_window file.f (by omega), readU32_window file.f (by omega)]
    rw [hentries]
    congr 1
    simp [List.getD_eq_getElem?_getD, List.getElem?_replicate]
    split_ifs <;> rfl

theorem peReadExportTable_iff {addr size off : ℕ} {out : PeExport}
    (hdir : peGetDatadir file 0 = some (addr, size)) (haddr : addr ≠ 0) (hsize : size ≠ 0)
    (hoff : peFindFileOffset file addr = some off) :
    peReadExportTable file = some out ↔
      ∃ funcs names ords, ExportRead file addr off funcs names ords ∧
        out = readExports file off funcs names ords := by
  have hfield : ∀ w, w + 4 ≤ 0x28 →
      readU32 ((file.f.drop off).take 0x28) w = readU32 file.f (off + w) :=
    fun w hw => readU32_window file.f hw
  have hno : ¬ (addr = 0 ∨ size = 0) := by tauto
  simp only [peReadExportTable, hdir, bind, Option.bind_some, if_neg hno, hoff,
    Option.bind_eq_some_iff, fread_iff, fseek_iff, Option.some.injEq]
  constructor
  · rintro ⟨header, ⟨_, hheader, rfl⟩, funcs, hfuncs, funcTab, ⟨hfn, hfin, rfl⟩, names, hnames,
      nameTab, ⟨hnn, hnin, rfl⟩, ords, hords, ordsTab, ⟨_, hoin, rfl⟩, _, _, rfl⟩
    refine ⟨funcs, names, ords, ?_, readExports_windows off funcs names ords⟩
    rw [hfield 0x1c (by decide)] at hfuncs
    rw [hfield 0x20 (by decide)] at hnames
    rw [hfield 0x24 (by decide)] at hords
    rw [hfield 0x14 (by decide)] at hfn hfin
    rw [hfield 0x18 (by decide)] at hnn hnin hoin
    exact ⟨hheader, hfuncs, hnames, hords, by unfold exportFuncNum; omega,
      by unfold exportNameNum; omega, hfin, hnin, hoin⟩
  · rintro ⟨funcs, names, ords, h, rfl⟩
    have hfn := h.funcs_num
    have hnn := h.names_num
    have hfin := h.funcs_in
    have hnin := h.names_in
    have hoin := h.ords_in
    unfold exportFuncNum at hfn hfin
    unfold exportNameNum at hnn hnin hoin
    refine ⟨_, ⟨by decide, h.header, rfl⟩, funcs, ?_, _, ⟨?_, ?_, rfl⟩, names, ?_, _, ⟨?_, ?_, rfl⟩,
      ords, ?_, _, ⟨?_, ?_, rfl⟩, _, ⟨?_, ?_, rfl⟩, readExports_windows off funcs names ords⟩
    all_goals simp only [hfield 0x1c (by decide), hfield 0x20 (by decide), hfield 0x24 (by decide),
      hfield 0x14 (by decide), hfield 0x18 (by decide)]
    · exact h.funcs_at
    · omega
    · exact hfin
    · exact h.names_at
    · omega
    · exact hnin
    · exact h.ords_at
    · omega
    · exact hoin
    · omega
    · exact hnin

section Directory

variable (file) (addr k : ℕ)

structure Inside (rva size : ℕ) : Prop where
  within : Within file k rva size
  in_file : filePos file k rva + size ≤ file.f.length

def directoryWord (n : ℕ) : ℕ := readU32 file.f (filePos file k addr + n)

def funcsPos : ℕ := filePos file k (directoryWord file addr k 0x1c)

def namesPos : ℕ := filePos file k (directoryWord file addr k 0x20)

def ordsPos : ℕ := filePos file k (directoryWord file addr k 0x24)

def ordinal (x : ℕ) : ℕ := readU16 file.f (ordsPos file addr k + 2 * x)

/-- An export directory at `addr` with its tables, all in section `k`. -/
structure ExportDirectory : Prop where
  datadir : ∃ size ≠ 0, peGetDatadir file 0 = some (addr, size)
  addr_ne : addr ≠ 0
  table : SectionTable file
  home : Home file k addr
  header : Inside file k addr 0x28
  funcs_num : directoryWord file addr k 0x14 ≠ 0
  funcs : Inside file k (directoryWord file addr k 0x1c) (4 * directoryWord file addr k 0x14)
  names : Inside file k (directoryWord file addr k 0x20) (4 * directoryWord file addr k 0x18)
  ords : Inside file k (directoryWord file addr k 0x24) (2 * directoryWord file addr k 0x18)
  ords_lt : ∀ x < directoryWord file addr k 0x18, ordinal file addr k x < directoryWord file addr k 0x14

structure ExportsDecoded (out : PeExport) : Prop where
  dllname : out.dllname = directoryWord file addr k 0x0c
  func_num : out.funcNum = directoryWord file addr k 0x14
  name_num : out.nameNum = directoryWord file addr k 0x18
  func_addr : ∀ i < out.funcNum,
    out.funcAddr[i]? = some (file.baseAddr + readU32 file.f (funcsPos file addr k + 4 * i))
  named : ∀ x < out.nameNum, (∀ y < out.nameNum, x < y → ordinal file addr k y ≠ ordinal file addr k x) →
    out.nameAddr[ordinal file addr k x]? = some (readU32 file.f (namesPos file addr k + 4 * x))
  unnamed : ∀ o < out.funcNum, (∀ x < out.nameNum, ordinal file addr k x ≠ o) →
    out.nameAddr[o]? = some 0

variable {file addr k}

lemma ExportDirectory.read (h : ExportDirectory file addr k) :
    (∃ funcs names ords, ExportRead file addr (filePos file k addr) funcs names ords) ↔
      directoryWord file addr k 0x18 ≠ 0 ∧
        ordsPos file addr k + 4 * directoryWord file addr k 0x18 ≤ file.f.length := by
  have hpos : ∀ {rva size : ℕ}, Inside file k rva size →
      (rva : ℤ) - addr + filePos file k addr = filePos file k rva := by
    intro rva size hin
    have := hin.within.lo
    have := h.home.within.lo
    unfold filePos
    omega
  constructor
  · rintro ⟨funcs, names, ords, hread⟩
    have hords := hread.ords_at
    rw [← directoryWord, hpos h.ords] at hords
    have hin := hread.ords_in
    rw [← Int.ofNat.inj hords] at hin
    exact ⟨hread.names_num, hin⟩
  · rintro ⟨hnum, hin⟩
    exact ⟨_, _, _, h.header.in_file, hpos h.funcs, hpos h.names, hpos h.ords, h.funcs_num, hnum,
      h.funcs.in_file, h.names.in_file, hin⟩

lemma ExportDirectory.read_eq (h : ExportDirectory file addr k) {funcs names ords : ℕ}
    (hread : ExportRead file addr (filePos file k addr) funcs names ords) :
    funcs = funcsPos file addr k ∧ names = namesPos file addr k ∧ ords = ordsPos file addr k := by
  have hlo := h.home.within.lo
  have hf := hread.funcs_at
  have hn := hread.names_at
  have ho := hread.ords_at
  have hflo := h.funcs.within.lo
  have hnlo := h.names.within.lo
  have holo := h.ords.within.lo
  unfold directoryWord at hflo hnlo holo
  unfold filePos at hf hn ho hflo hnlo holo
  refine ⟨?_, ?_, ?_⟩
  · unfold funcsPos directoryWord filePos
    omega
  · unfold namesPos directoryWord filePos
    omega
  · unfold ordsPos directoryWord filePos
    omega

lemma readExports_decoded (h : ExportDirectory file addr k) :
    ExportsDecoded file addr k (readExports file (filePos file k addr) (funcsPos file addr k)
      (namesPos file addr k) (ordsPos file addr k)) := by
  have hentry : ∀ x < directoryWord file addr k 0x18,
      (exportEntries file (namesPos file addr k) (ordsPos file addr k)
        (directoryWord file addr k 0x18))[x]? =
        some (ordinal file addr k x, readU32 file.f (namesPos file addr k + 4 * x)) := by
    intro x hx
    simp [exportEntries, hx, ordinal]
  refine ⟨rfl, rfl, rfl, ?_, ?_, ?_⟩
  · intro i hi
    have hi' : i < exportFuncNum file (filePos file k addr) := hi
    simp [readExports, hi']
  · intro x hx hlast
    have hlt : ordinal file addr k x < exportFuncNum file (filePos file k addr) := h.ords_lt x hx
    have hname := lastName_last (hentry x hx) (by
      intro y e hxy he
      have hy : y < directoryWord file addr k 0x18 := by
        by_contra hge
        simp [exportEntries, Nat.le_of_not_lt hge] at he
      rw [hentry y hy] at he
      cases he
      exact hlast y hy hxy)
    have hname' : lastName (exportEntries file (namesPos file addr k) (ordsPos file addr k)
        (exportNameNum file (filePos file k addr))) (ordinal file addr k x) =
        some (readU32 file.f (namesPos file addr k + 4 * x)) := hname
    simp [readExports, hlt, hname']
  · intro o ho hnone
    have ho' : o < exportFuncNum file (filePos file k addr) := ho
    have hname : lastName (exportEntries file (namesPos file addr k) (ordsPos file addr k)
        (exportNameNum file (filePos file k addr))) o = none := by
      rw [lastName_eq_none]
      intro e he
      obtain ⟨x, hx, rfl⟩ := List.mem_map.mp he
      exact hnone x (List.mem_range.mp hx)
    simp [readExports, ho', hname]

/-- A well-formed directory is decoded iff it has names and the file goes on for four bytes, not the
two an ordinal takes, for each of them. -/
theorem exports_decoded_iff (file : PeFile) (addr k : ℕ) (h : ExportDirectory file addr k) :
    (∃ out, peReadExportTable file = some out ∧ ExportsDecoded file addr k out) ↔
      directoryWord file addr k 0x18 ≠ 0 ∧
        ordsPos file addr k + 4 * directoryWord file addr k 0x18 ≤ file.f.length := by
  obtain ⟨size, hsize, hdir⟩ := h.datadir
  have hoff : peFindFileOffset file addr = some (filePos file k addr) :=
    peFindFileOffset_iff.mpr ⟨h.table, k, h.home, rfl⟩
  rw [← h.read]
  constructor
  · rintro ⟨out, hout, -⟩
    obtain ⟨funcs, names, ords, hread, -⟩ :=
      (peReadExportTable_iff hdir h.addr_ne hsize hoff).mp hout
    exact ⟨funcs, names, ords, hread⟩
  · rintro ⟨funcs, names, ords, hread⟩
    refine ⟨_, (peReadExportTable_iff hdir h.addr_ne hsize hoff).mpr
      ⟨funcs, names, ords, hread, rfl⟩, ?_⟩
    obtain ⟨rfl, rfl, rfl⟩ := h.read_eq hread
    exact readExports_decoded h

def exportImage (funcs names ords : List ℕ) (text : List UInt8) : List UInt8 :=
  let namesAddr := 0x1028 + 4 * funcs.length
  let ordsAddr := namesAddr + 4 * names.length
  let tables := [List.replicate 0x0c 0, word 0x1028, word 1, word funcs.length, word names.length,
    word 0x1028, word namesAddr, word ordsAddr, funcs.flatMap word, names.flatMap word,
    ords.flatMap fun ord => (word ord).take 2, text].flatten
  [List.replicate 0x3c 0, word 0x40,
    peBytes 1 0x78 0x1000 0x400000 [(0x1000, 0x28), (0, 0), (0, 0)],
    sectionBytes (ascii ".edata") 0x1000 0x1000 tables.length 0xf8 0x40000040, tables].flatten

def exportFile (funcs names ords : List ℕ) (text : List UInt8) : PeFile where
  f := exportImage funcs names ords text
  headerOff := 0x40
  datadirOff := 0xb8
  sectionsOff := 0xd0
  sectionsNum := 1
  entrypoint := 0x1000
  baseAddr := 0x400000
  datadirNum := 3

/-- A function without a name. -/
def numberedFile : PeFile := exportFile [0x1800] [] [] []

/-- Three functions, the last of which is `f` and the first `g`. -/
def namedFile : PeFile :=
  exportFile [0x1800, 0x1900, 0x1a00] [0x1040, 0x1042] [2, 0] [0x66, 0, 0x67, 0]

lemma exportFile_directory {file : PeFile} (h : file = numberedFile ∨ file = namedFile) :
    ExportDirectory file 0x1000 0 := by
  rcases h with rfl | rfl
  all_goals exact {
    datadir := ⟨0x28, by decide, by decide +kernel⟩
    addr_ne := by decide
    table := ⟨by decide, by decide +kernel⟩
    home := ⟨⟨by decide, by decide +kernel, by decide +kernel⟩, fun j hj => absurd hj (Nat.not_lt_zero j)⟩
    header := ⟨⟨by decide, by decide +kernel, by decide +kernel⟩, by decide +kernel⟩
    funcs_num := by decide +kernel
    funcs := ⟨⟨by decide, by decide +kernel, by decide +kernel⟩, by decide +kernel⟩
    names := ⟨⟨by decide, by decide +kernel, by decide +kernel⟩, by decide +kernel⟩
    ords := ⟨⟨by decide, by decide +kernel, by decide +kernel⟩, by decide +kernel⟩
    ords_lt := by decide +kernel }

theorem exports_not_decoded :
    peOpenReadHeader numberedFile.f = some numberedFile ∧ ExportDirectory numberedFile 0x1000 0 ∧
      peReadExportTable numberedFile = none :=
  ⟨by decide +kernel, exportFile_directory (.inl rfl), by decide +kernel⟩

theorem exports_decoded_two :
    ∃ out, peReadExportTable namedFile = some out ∧ ExportsDecoded namedFile 0x1000 0 out :=
  (exports_decoded_iff namedFile 0x1000 0 (exportFile_directory (.inr rfl))).mpr
    ⟨by decide +kernel, by decide +kernel⟩

end Directory

end Metroskrew.Relink
