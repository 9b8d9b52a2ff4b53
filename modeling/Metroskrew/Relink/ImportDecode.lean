import Metroskrew.Relink.Image
import Metroskrew.Relink.ImportTable

/-! Import directories as they are laid out in a file, and what `pe_read_import_table` and
`dump_find_import` make of them. -/

namespace Metroskrew.Relink

open Metroskrew.Library.Concatenation

variable (file : PeFile)

def TableAt (rva : ℕ) (ws : List ℕ) : Prop :=
  ∃ pos, RawAt file rva (4 * (ws.length + 1)) pos ∧
    (∀ i (h : i < ws.length), readU32 file.f (pos + 4 * i) = ws[i]) ∧
    readU32 file.f (pos + 4 * ws.length) = 0 ∧ 0 ∉ ws

def TextAt (rva : ℕ) (s : CString) : Prop :=
  ∃ pos, RawAt file rva (s.length + 1) pos ∧ (file.f.drop pos).take s.length = s ∧
    file.f.getD (pos + s.length) 0 = 0 ∧ 0 ∉ s

/-- One imported DLL: its descriptor and tables, its name, and that of entry `j`, if `j` has one. -/
structure EncodedImport where
  row : ImportRow
  dllname : CString
  name : ℕ → CString

structure EncodedImport.At (e : EncodedImport) : Prop where
  origs_ne : e.row.desc.origs ≠ 0
  thunk_ne : e.row.desc.thunk ≠ 0
  same_length : e.row.infos.length = e.row.thunks.length
  lookup : TableAt file e.row.desc.origs e.row.infos
  address : TableAt file e.row.desc.thunk e.row.thunks
  -- the addresses of the slots have 32 bits
  fits : e.row.desc.thunk + 4 * e.row.thunks.length ≤ 2 ^ 32
  info : ∀ w ∈ e.row.infos, w < 0x7ffffffe ∨ 0x80000000 ≤ w
  dllname : TextAt file e.row.desc.dname e.dllname
  names : ∀ j w, e.row.infos[j]? = some w → w < 0x80000000 → TextAt file (w + 2) (e.name j)

structure EncodedDirectory (es : List EncodedImport) : Prop where
  table : SectionTable file
  sections_apart : SectionsApart file
  directory : ∃ addr size pos, peGetDatadir file 1 = some (addr, size) ∧ RawAt file addr size pos ∧
    0x14 * (es.length + 1) ≤ size ∧
    (∀ (i : ℕ) (e : EncodedImport), es[i]? = some e → descAt file.f (pos + 0x14 * i) = e.row.desc) ∧
    descAt file.f (pos + 0x14 * es.length) = ⟨0, 0, 0, 0, 0⟩
  encoded : ∀ e ∈ es, e.At file
  slots_apart : ∀ (i j : ℕ) (e e' : EncodedImport), i ≠ j → es[i]? = some e → es[j]? = some e' →
    e.row.desc.thunk + 4 * e.row.thunks.length ≤ e'.row.desc.thunk ∨
      e'.row.desc.thunk + 4 * e'.row.thunks.length ≤ e.row.desc.thunk

def entryCounts (es : List EncodedImport) : List ℕ := es.map fun e => e.row.infos.length

/-- Entry `k` of the arrays is entry `j` of `e`, the word `w`, and its slot leads there. -/
structure EntryDecoded (out : PeImport) (k : ℕ) (e : EncodedImport) (j w : ℕ) : Prop where
  imp_addr : out.impAddr[k]? = some (file.baseAddr + (e.row.desc.thunk + 4 * j))
  dllname_addr : out.dllnameAddr[k]? = some e.row.desc.dname
  name_addr : out.nameAddr[k]? = some (if w < 0x80000000 then w + 2 else w)
  found : ∀ t : Tables, t.file = file → t.imports = out →
    dumpFindImport t (file.baseAddr + (e.row.desc.thunk + 4 * j)) =
      .ok (some (if w < 0x80000000 then ⟨0, e.dllname, some (e.name j)⟩
        else ⟨w - 0x80000000, e.dllname, none⟩))

variable {file}

lemma drop_four (f : List UInt8) (pos : ℕ) (h : pos + 4 ≤ f.length) :
    ∃ a b c d, f.drop pos = a :: b :: c :: d :: f.drop (pos + 4) ∧
      readU32 [a, b, c, d] 0 = readU32 f pos := by
  have hget : ∀ i, pos + i < f.length → (f.drop pos).getD i 0 = f.getD (pos + i) 0 := by
    intro i _
    simp [List.getD_eq_getElem?_getD]
  refine ⟨f[pos], f[pos + 1], f[pos + 2], f[pos + 3], ?_, ?_⟩
  · rw [List.drop_eq_getElem_cons (by omega), List.drop_eq_getElem_cons (by omega),
      List.drop_eq_getElem_cons (by omega), List.drop_eq_getElem_cons (by omega)]
  · simp [readU32, List.getD_eq_getElem?_getD, show pos < f.length by omega,
      show pos + 1 < f.length by omega, show pos + 2 < f.length by omega,
      show pos + 3 < f.length by omega]

lemma readThunks_table (f : List UInt8) (pos : ℕ) {ws : List ℕ}
    (hlen : pos + 4 * (ws.length + 1) ≤ f.length)
    (hws : ∀ i (h : i < ws.length), readU32 f (pos + 4 * i) = ws[i])
    (hend : readU32 f (pos + 4 * ws.length) = 0) (hzero : 0 ∉ ws) :
    readThunks (f.drop pos) = some ws := by
  induction ws generalizing pos with
  | nil =>
    obtain ⟨a, b, c, d, hdrop, hword⟩ := drop_four f pos (by simpa using hlen)
    rw [hdrop, readThunks, hword, if_pos (by simpa using hend)]
  | cons w ws ih =>
    rw [List.length_cons] at hlen hend
    rw [List.mem_cons, not_or] at hzero
    obtain ⟨a, b, c, d, hdrop, hword⟩ := drop_four f pos (by omega)
    have hw : readU32 f pos = w := hws 0 (Nat.succ_pos _)
    have htail := ih (pos + 4) (by omega)
      (fun i hi => by
        have := hws (i + 1) (by simpa using hi)
        rwa [show pos + 4 * (i + 1) = pos + 4 + 4 * i by omega, List.getElem_cons_succ] at this)
      (by rwa [show pos + 4 * (ws.length + 1) = pos + 4 + 4 * ws.length by omega] at hend) hzero.2
    rw [hdrop, readThunks, hword, hw, if_neg (Ne.symm hzero.1), htail]
    rfl

lemma TableAt.read (htable : SectionTable file) (hapart : SectionsApart file) {rva : ℕ}
    {ws : List ℕ} (h : TableAt file rva ws) : wordTable file rva = some ws := by
  obtain ⟨pos, hraw, hws, hend, hzero⟩ := h
  have hoff : peFindFileOffset file rva = some pos := hraw.find htable hapart (i := 0) (by omega)
  obtain ⟨_, _, _, hin⟩ := hraw
  rw [wordTable, hoff]
  exact readThunks_table file.f pos hin hws hend hzero

lemma TextAt.read (htable : SectionTable file) (hapart : SectionsApart file) {rva : ℕ} {s : CString}
    (h : TextAt file rva s) : peReadName file rva = some s := by
  obtain ⟨pos, hraw, htext, hend, hzero⟩ := h
  have hoff : peFindFileOffset file rva = some pos := hraw.find htable hapart (i := 0) (by omega)
  obtain ⟨_, _, _, hin⟩ := hraw
  have hlt : pos + s.length < file.f.length := by omega
  have hnul : file.f[pos + s.length] = 0 := by
    simpa [List.getD_eq_getElem?_getD, hlt] using hend
  rw [peReadName, hoff]
  apply congrArg some
  rw [← List.take_append_drop s.length (file.f.drop pos), htext, List.drop_drop,
    List.drop_eq_getElem_cons hlt, hnul, cstr_append hzero]

lemma EncodedImport.At.read {e : EncodedImport} (h : e.At file) (htable : SectionTable file)
    (hapart : SectionsApart file) : e.row.Read file where
  complete := ImportDesc.complete_iff.mpr ⟨h.origs_ne, h.thunk_ne⟩
  infos := h.lookup.read htable hapart
  thunks := h.address.read htable hapart

lemma EncodedDirectory.rows {es : List EncodedImport} (h : EncodedDirectory file es) :
    peReadImportTable file = some (importsOf file (es.map EncodedImport.row)) := by
  obtain ⟨addr, size, pos, hdir, hraw, hsize, hdescs, hclosed⟩ := h.directory
  have hoff : peFindFileOffset file addr = some pos :=
    hraw.find h.table h.sections_apart (i := 0) (by omega)
  obtain ⟨_, _, _, hin⟩ := hraw
  have hdirectory : ∃ rest, importDirectory file =
      (es.map EncodedImport.row).map ImportRow.desc ++ ⟨0, 0, 0, 0, 0⟩ :: rest := by
    obtain ⟨m, hm⟩ := Nat.exists_eq_add_of_le (show es.length + 1 ≤ size / 0x14 by omega)
    refine ⟨(List.range m).map fun i => descAt file.f (pos + 0x14 * (es.length + 1 + i)), ?_⟩
    simp only [importDirectory, hdir, hoff]
    rw [hm, List.range_add, List.map_append, List.range_succ, List.map_append, List.map_singleton,
      hclosed, List.append_assoc, List.map_map]
    congr 1
    apply List.ext_getElem
    · simp
    · intro i hi _
      have hlt : i < es.length := by simpa using hi
      have hdesc := hdescs i es[i] (List.getElem?_eq_getElem hlt)
      simpa using hdesc
  obtain ⟨rest, hdirectory⟩ := hdirectory
  rw [peReadImportTable_eq hdir hoff (by omega) hin, hdirectory, readRows_append]
  · rfl
  · intro r hr
    obtain ⟨e, he, rfl⟩ := List.mem_map.mp hr
    exact (h.encoded e he).read h.table h.sections_apart
  · intro d hd
    obtain rfl := Option.some.inj hd
    rfl

variable {es : List EncodedImport} {k i j : ℕ}

lemma EncodedDirectory.counts (h : EncodedDirectory file es) :
    (es.map fun e => e.row.thunks.length) = entryCounts es := by
  apply List.map_congr_left
  intro e he
  exact ((h.encoded e he).same_length).symm

lemma getElem?_rows {α : Type} (g : ImportRow → List α)
    (hg : ((es.map EncodedImport.row).map g).map List.length = entryCounts es)
    (hpart : Part (entryCounts es) k i j) {e : EncodedImport} (he : es[i]? = some e) :
    ((es.map EncodedImport.row).map g).flatten[k]? = (g e.row)[j]? := by
  rw [Part.getElem?_flatten (hg ▸ hpart)]
  simp [he]

lemma importsOf_impAddr (rows : List ImportRow) :
    (importsOf file rows).impAddr = (rows.map (ImportRow.slots file)).flatten := List.nil_append _

lemma importsOf_dllnameAddr (rows : List ImportRow) : (importsOf file rows).dllnameAddr =
    (rows.map fun r => List.replicate r.thunks.length r.desc.dname).flatten := List.nil_append _

lemma importsOf_nameAddr (rows : List ImportRow) : (importsOf file rows).nameAddr =
    (rows.map fun r => r.infos.map nameAddrOf).flatten := List.nil_append _

lemma importsOf_addrNum (rows : List ImportRow) :
    (importsOf file rows).addrNum = (rows.map fun r => r.thunks.length).sum := Nat.zero_add _

lemma importsOf_nameNum (rows : List ImportRow) :
    (importsOf file rows).nameNum = (rows.map fun r => r.infos.length).sum := Nat.zero_add _

lemma EncodedDirectory.slot (h : EncodedDirectory file es) (hpart : Part (entryCounts es) k i j)
    {e : EncodedImport} (he : es[i]? = some e) (hj : j < e.row.thunks.length) :
    (importsOf file (es.map EncodedImport.row)).impAddr[k]? =
      some (file.baseAddr + (e.row.desc.thunk + 4 * j)) := by
  have hfits := (h.encoded e (List.mem_of_getElem? he)).fits
  rw [importsOf_impAddr, getElem?_rows (ImportRow.slots file) _ hpart he]
  · have hmod : (e.row.desc.thunk + 4 * j) % 2 ^ 32 = e.row.desc.thunk + 4 * j :=
      Nat.mod_eq_of_lt (by omega)
    rw [ImportRow.slots, List.getElem?_map, List.getElem?_range hj, Option.map_some, slotAddr, hmod]
  · rw [← h.counts]
    simp [ImportRow.slots, Function.comp_def]

lemma EncodedDirectory.slot_unique (h : EncodedDirectory file es)
    (hpart : Part (entryCounts es) k i j) {e : EncodedImport} (he : es[i]? = some e)
    (hj : j < e.row.thunks.length) {k' : ℕ}
    (hk' : (importsOf file (es.map EncodedImport.row)).impAddr[k']? =
      some (file.baseAddr + (e.row.desc.thunk + 4 * j))) : k' = k := by
  have hlt : k' < (entryCounts es).sum := by
    have hlen := (List.getElem?_eq_some_iff.mp hk').1
    rw [importsOf_impAddr, List.length_flatten] at hlen
    rw [← h.counts]
    simpa [ImportRow.slots, Function.comp_def] using hlen
  obtain ⟨i', j', hpart'⟩ := exists_part hlt
  obtain ⟨n, hn, hj'⟩ := hpart'.length
  obtain ⟨e', he', rfl⟩ : ∃ e', es[i']? = some e' ∧ e'.row.infos.length = n := by
    simpa [entryCounts, List.getElem?_map] using hn
  rw [(h.encoded e' (List.mem_of_getElem? he')).same_length] at hj'
  rw [h.slot hpart' he' hj', Option.some.injEq] at hk'
  by_cases hii : i' = i
  · subst hii
    obtain rfl : e = e' := Option.some.inj (he.symm.trans he')
    obtain rfl : j' = j := by omega
    rw [hpart'.eq_offset, hpart.eq_offset]
  · have := h.slots_apart i' i e' e hii he' he
    omega

lemma EncodedDirectory.entry (h : EncodedDirectory file es) (hpart : Part (entryCounts es) k i j)
    {e : EncodedImport} (he : es[i]? = some e) {w : ℕ} (hw : e.row.infos[j]? = some w) :
    EntryDecoded file (importsOf file (es.map EncodedImport.row)) k e j w := by
  have hat := h.encoded e (List.mem_of_getElem? he)
  have hj : j < e.row.thunks.length := by
    rw [← hat.same_length]
    exact (List.getElem?_eq_some_iff.mp hw).1
  have hslot := h.slot hpart he hj
  have hdll : (importsOf file (es.map EncodedImport.row)).dllnameAddr[k]? =
      some e.row.desc.dname := by
    rw [importsOf_dllnameAddr, getElem?_rows _ _ hpart he]
    · exact List.getElem?_replicate_of_lt hj
    · rw [← h.counts]
      simp [Function.comp_def]
  have hname : (importsOf file (es.map EncodedImport.row)).nameAddr[k]? =
      some (if w < 0x80000000 then w + 2 else w) := by
    rw [importsOf_nameAddr, getElem?_rows _ _ hpart he]
    · rw [List.getElem?_map, hw]
      rfl
    · simp [entryCounts, Function.comp_def]
  refine ⟨hslot, hdll, hname, ?_⟩
  rintro t hfile himports
  have hlt : k < t.imports.nameNum := by
    rw [himports, importsOf_nameNum]
    simpa [entryCounts, Function.comp_def] using hpart.lt_sum
  refine findFirst_at (himports ▸ hslot) (fun k' hlt hk' => ?_) ?_
  · exact hlt.ne (h.slot_unique hpart he hj (himports ▸ hk'))
  · have hdllname := hat.dllname.read h.table h.sections_apart
    have hrange := hat.info w (List.mem_of_getElem? hw)
    rw [dumpImportAt, himports, List.getD_eq_getElem?_getD, hdll, Option.getD_some, hfile, hdllname,
      List.getD_eq_getElem?_getD, hname, Option.getD_some]
    simp only [orFail, bind, Except.bind, pure, Except.pure, himports ▸ hlt, if_true]
    by_cases hord : w < 0x80000000
    · have htext := (hat.names j w hw hord).read h.table h.sections_apart
      rw [if_pos hord, if_pos hord, if_neg (by omega), htext]
    · rw [if_neg hord, if_neg hord, if_pos (by omega)]

/-- Every entry of every descriptor comes back, under its number across all of them. -/
theorem imports_decoded (file : PeFile) (es : List EncodedImport) (h : EncodedDirectory file es) :
    ∃ out, peReadImportTable file = some out ∧ out.addrNum = (entryCounts es).sum ∧
      out.nameNum = (entryCounts es).sum ∧
      ∀ (i j : ℕ) (e : EncodedImport) (w : ℕ), es[i]? = some e → e.row.infos[j]? = some w →
        EntryDecoded file out (((entryCounts es).take i).sum + j) e j w := by
  refine ⟨_, h.rows, ?_, ?_, ?_⟩
  · rw [importsOf_addrNum, ← h.counts, List.map_map]
    rfl
  · rw [importsOf_nameNum, List.map_map]
    rfl
  · intro i j e w he hw
    have hcount : (entryCounts es)[i]? = some e.row.infos.length := by
      rw [entryCounts, List.getElem?_map, he]
      rfl
    exact h.entry (part_offset hcount (List.getElem?_eq_some_iff.mp hw).1) he hw

/-- Two import address tables, two lookup tables, the descriptors and the names. -/
def importBytes : List UInt8 :=
  [word 0x1066, word 0x80000007, word 0, word 0x106c, word 0,
    word 0x1066, word 0x80000007, word 0, word 0x106c, word 0,
    word 0x1014, word 0, word 0, word 0x1064, word 0x1000,
    word 0x1020, word 0, word 0, word 0x106a, word 0x100c, List.replicate 20 0,
    ascii "k", [0, 0, 0], ascii "f", [0], ascii "m", [0, 0, 0], ascii "g", [0]].flatten

def importImage : List UInt8 :=
  [List.replicate 0x3c 0, word 0x40,
    peBytes 1 0x78 0x1000 0x400000 [(0, 0), (0x1028, 0x3c), (0, 0)],
    sectionBytes (ascii ".idata") 0x70 0x1000 0x70 0xf8 0xc0000040, importBytes].flatten

def importFile : PeFile where
  f := importImage
  headerOff := 0x40
  datadirOff := 0xb8
  sectionsOff := 0xd0
  sectionsNum := 1
  entrypoint := 0x1000
  baseAddr := 0x400000
  datadirNum := 3

/-- One entry by name and one by number. -/
def importK : EncodedImport where
  row := ⟨⟨0x1014, 0, 0, 0x1064, 0x1000⟩, [0x1066, 0x80000007], [0x1066, 0x80000007]⟩
  dllname := ascii "k"
  name _ := ascii "f"

def importM : EncodedImport where
  row := ⟨⟨0x1020, 0, 0, 0x106a, 0x100c⟩, [0x106c], [0x106c]⟩
  dllname := ascii "m"
  name _ := ascii "g"

lemma importFile_read : (importFile.f.drop 0xf8).take importBytes.length = importBytes ∧
    importFile.f.length = 0x168 ∧ peGetDatadir importFile 1 = some (0x1028, 0x3c) ∧
    (rawAddress importFile 0 = 0x1000 ∧ rawSize importFile 0 = 0x70 ∧ rawOffset importFile 0 = 0xf8) ∧
    descAt importFile.f 0x120 = importK.row.desc ∧ descAt importFile.f 0x134 = importM.row.desc ∧
    descAt importFile.f 0x148 = ⟨0, 0, 0, 0, 0⟩ := by
  decide +kernel

lemma importFile_raw {k size : ℕ} (hk : k + size ≤ 0x70) :
    RawAt importFile (0x1000 + k) size (0xf8 + k) := by
  obtain ⟨-, hlen, -, ⟨haddress, hsize, hoffset⟩, -⟩ := importFile_read
  refine ⟨0, ⟨by decide, by omega, by omega⟩, ?_, by omega⟩
  rw [filePos, haddress, hoffset]
  omega

lemma import_table {k : ℕ} {ws : List ℕ} (hk : k + 4 * (ws.length + 1) ≤ 0x70)
    (hws : ∀ i (h : i < ws.length), readU32 importBytes (k + 4 * i) = ws[i])
    (hend : readU32 importBytes (k + 4 * ws.length) = 0) (hzero : 0 ∉ ws) :
    TableAt importFile (0x1000 + k) ws := by
  have hlen : importBytes.length = 0x70 := by decide +kernel
  have hword : ∀ i, i + 4 ≤ 0x70 → readU32 importFile.f (0xf8 + i) = readU32 importBytes i := by
    intro i hi
    rw [← readU32_window importFile.f (hlen ▸ hi), importFile_read.1]
  refine ⟨0xf8 + k, importFile_raw hk, fun i hi => ?_, ?_, hzero⟩
  · rw [Nat.add_assoc, hword _ (by omega), hws i hi]
  · rw [Nat.add_assoc, hword _ (by omega), hend]

lemma import_text {k : ℕ} {s : CString} (hk : k + (s.length + 1) ≤ 0x70)
    (hs : (importBytes.drop k).take s.length = s) (hend : importBytes.getD (k + s.length) 0 = 0)
    (hzero : 0 ∉ s) : TextAt importFile (0x1000 + k) s := by
  have hlen : importBytes.length = 0x70 := by decide +kernel
  refine ⟨0xf8 + k, importFile_raw hk, ?_, ?_, hzero⟩
  · have hpart : (((importFile.f.drop 0xf8).take 0x70).drop k).take s.length =
        (importFile.f.drop (0xf8 + k)).take s.length := by
      rw [List.drop_take, List.take_take, List.drop_drop, min_eq_left (by omega)]
    rw [← hpart, ← hlen, importFile_read.1, hs]
  · rw [Nat.add_assoc, ← getD_window importFile.f (show k + s.length < importBytes.length by omega),
      importFile_read.1, hend]

lemma importK_at : importK.At importFile where
  origs_ne := by decide
  thunk_ne := by decide
  same_length := rfl
  lookup := import_table (k := 0x14) (by decide) (by decide) (by decide) (by decide)
  address := import_table (k := 0) (by decide) (by decide) (by decide) (by decide)
  fits := by decide
  info := by decide
  dllname := import_text (k := 0x64) (by decide) (by decide) (by decide) (by decide)
  names := by
    intro j w hw hlt
    have hj : j < 2 := (List.getElem?_eq_some_iff.mp hw).1
    interval_cases j
    · obtain rfl : 0x1066 = w := Option.some.inj hw
      exact import_text (k := 0x68) (by decide) (by decide) (by decide) (by decide)
    · obtain rfl : 0x80000007 = w := Option.some.inj hw
      exact absurd hlt (by decide)

lemma importM_at : importM.At importFile where
  origs_ne := by decide
  thunk_ne := by decide
  same_length := rfl
  lookup := import_table (k := 0x20) (by decide) (by decide) (by decide) (by decide)
  address := import_table (k := 0xc) (by decide) (by decide) (by decide) (by decide)
  fits := by decide
  info := by decide
  dllname := import_text (k := 0x6a) (by decide) (by decide) (by decide) (by decide)
  names := by
    intro j w hw hlt
    have hj : j < 1 := (List.getElem?_eq_some_iff.mp hw).1
    obtain rfl : j = 0 := Nat.lt_one_iff.mp hj
    obtain rfl : 0x106c = w := Option.some.inj hw
    exact import_text (k := 0x6e) (by decide) (by decide) (by decide) (by decide)

theorem imports_decoded_two :
    ∃ out, peReadImportTable importFile = some out ∧ out.addrNum = 3 ∧ out.nameNum = 3 ∧
      ∀ (i j : ℕ) (e : EncodedImport) (w : ℕ), [importK, importM][i]? = some e →
        e.row.infos[j]? = some w → EntryDecoded importFile out (([2, 1].take i).sum + j) e j w :=
  imports_decoded importFile [importK, importM] {
    table := ⟨by decide, by rw [importFile_read.2.1]; decide⟩
    sections_apart := by
      intro j k rva hj hk
      have hj' : j < 1 := hj.lt
      have hk' : k < 1 := hk.lt
      omega
    directory := by
      obtain ⟨-, -, hdir, -, hk, hm, hend⟩ := importFile_read
      refine ⟨0x1028, 0x3c, _, hdir, importFile_raw (k := 0x28) (by decide), by decide, ?_, hend⟩
      intro i e he
      have hi : i < 2 := (List.getElem?_eq_some_iff.mp he).1
      interval_cases i
      · obtain rfl := Option.some.inj he
        exact hk
      · obtain rfl := Option.some.inj he
        exact hm
    encoded := by
      intro e he
      rcases List.mem_cons.mp he with rfl | he
      · exact importK_at
      · rw [List.mem_singleton.mp he]
        exact importM_at
    slots_apart := by
      intro i j e e' hne he he'
      have hi : i < 2 := (List.getElem?_eq_some_iff.mp he).1
      have hj : j < 2 := (List.getElem?_eq_some_iff.mp he').1
      interval_cases i <;> interval_cases j
      · exact absurd rfl hne
      · cases he
        cases he'
        exact .inl (by decide)
      · cases he
        cases he'
        exact .inr (by decide)
      · exact absurd rfl hne }

end Metroskrew.Relink
