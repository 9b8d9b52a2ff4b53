import Metroskrew.Bytes

/-! Reading a portable executable: the `pe_*` functions of dump.c. `unsigned long` has 64 bits on
the build host, so sums of words read from the file do not wrap; `unsigned` has 32. -/

namespace Metroskrew.Relink

structure PeFile where
  f : List UInt8
  headerOff : ℕ
  datadirOff : ℕ
  sectionsOff : ℕ
  sectionsNum : ℕ
  entrypoint : ℕ
  baseAddr : ℕ
  datadirNum : ℕ
  deriving Repr, DecidableEq

structure PeSection where
  name : CString
  vsize : ℕ
  address : ℕ
  dsize : ℕ
  offset : ℕ
  r : Bool
  w : Bool
  x : Bool
  deriving Repr, DecidableEq

structure PeExport where
  dllname : ℕ
  funcNum : ℕ
  nameNum : ℕ
  funcAddr : List ℕ
  nameAddr : List ℕ
  deriving Repr, DecidableEq

structure PeImport where
  addrNum : ℕ
  nameNum : ℕ
  impAddr : List ℕ
  dllnameAddr : List ℕ
  nameAddr : List ℕ
  deriving Repr, DecidableEq

structure PeRsrcString where
  num : ℕ
  id : List ℕ
  addr : List ℕ
  size : List ℕ
  deriving Repr, DecidableEq

/-- `fseek(f, off, SEEK_SET)` on an `unsigned long` that passes through `long`. -/
def fseek (off : ℤ) : Option ℕ := if 0 ≤ off then some off.toNat else none

/-- `fread(buf, size, 1, f) == 1` at a file position; a request for no bytes reads no item. -/
def fread (f : List UInt8) (pos size : ℕ) : Option (List UInt8) :=
  if size = 0 ∨ f.length < pos + size then none else some ((f.drop pos).take size)

def peOpenReadHeader (f : List UInt8) : Option PeFile := do
  let headerOffB ← fread f 0x3c 4
  let headerOff := readU32 headerOffB 0
  let header ← fread f headerOff 0x18
  guard (header.take 4 = ascii "PE" ++ [0, 0])
  let optHeaderSize := 0x78
  -- `unsigned char opt_size`
  let optSize := readU16 header 0x14 % 2 ^ 8
  let optHeader ← fread f (headerOff + 0x18) optHeaderSize
  guard (readU16 optHeader 0 = 0x010b)
  some {
    f := f
    headerOff := headerOff
    datadirOff := (headerOff + optHeaderSize) % 2 ^ 32
    sectionsOff := (headerOff + 0x18 + optSize) % 2 ^ 32
    sectionsNum := readU16 header 0x06
    entrypoint := readU32 optHeader 0x10
    baseAddr := readU32 optHeader 0x1c
    datadirNum := readU32 optHeader 0x5c }

lemma fread_some {f buf : List UInt8} {pos size : ℕ} (h : fread f pos size = some buf) :
    buf = (f.drop pos).take size ∧ pos + size ≤ f.length := by
  rw [fread] at h
  split_ifs at h with hs
  cases h
  exact ⟨rfl, by omega⟩

lemma peOpenReadHeader_some {f : List UInt8} {file : PeFile} (h : peOpenReadHeader f = some file) :
    file.f = f ∧ file.baseAddr = readU32 f (readU32 f 0x3c + 0x34) := by
  simp only [peOpenReadHeader, bind, Option.bind_eq_some_iff, Option.some.injEq] at h
  obtain ⟨headerOffB, hoff, header, _, _, _, optHeader, hopt, _, _, rfl⟩ := h
  obtain ⟨rfl, _⟩ := fread_some hoff
  obtain ⟨rfl, _⟩ := fread_some hopt
  refine ⟨rfl, ?_⟩
  simp only [readU32_window f (show 0 + 4 ≤ 4 by decide)]
  rw [readU32_window f (by decide)]

variable (file : PeFile)

def peGetEntrypoint : ℕ := file.baseAddr + file.entrypoint

def peGetDatadir (num : ℕ) : Option (ℕ × ℕ) := do
  guard (¬ file.datadirNum ≤ num)
  let datadirOff := (file.datadirOff + 8 * num) % 2 ^ 32
  let entry ← fread file.f datadirOff 8
  some (readU32 entry 0, readU32 entry 4)

def peSectionHeaderOff (num : ℕ) : ℕ := (file.sectionsOff + 0x28 * num) % 2 ^ 32

def peReadSectionHeader (num : ℕ) : Option PeSection := do
  guard (¬ file.sectionsNum < num)
  let header ← fread file.f (peSectionHeaderOff file num) 0x28
  let flags := readU32 header 0x24
  some {
    name := cstr (header.take 8)
    vsize := readU32 header 0x08
    address := file.baseAddr + readU32 header 0x0c
    dsize := readU32 header 0x10
    offset := readU32 header 0x14
    x := flags.testBit 29
    r := flags.testBit 30
    w := flags.testBit 31 }

structure SectionFields (num : ℕ) (sec : PeSection) : Prop where
  inside : peSectionHeaderOff file num + 0x28 ≤ file.f.length
  name : sec.name = cstr ((file.f.drop (peSectionHeaderOff file num)).take 8)
  vsize : sec.vsize = readU32 file.f (peSectionHeaderOff file num + 0x08)
  address : sec.address = file.baseAddr + readU32 file.f (peSectionHeaderOff file num + 0x0c)
  dsize : sec.dsize = readU32 file.f (peSectionHeaderOff file num + 0x10)
  offset : sec.offset = readU32 file.f (peSectionHeaderOff file num + 0x14)
  x : sec.x = (readU32 file.f (peSectionHeaderOff file num + 0x24)).testBit 29
  r : sec.r = (readU32 file.f (peSectionHeaderOff file num + 0x24)).testBit 30
  w : sec.w = (readU32 file.f (peSectionHeaderOff file num + 0x24)).testBit 31

variable {file} in
lemma peReadSectionHeader_some {num : ℕ} {sec : PeSection}
    (h : peReadSectionHeader file num = some sec) : SectionFields file num sec := by
  simp only [peReadSectionHeader, bind, Option.bind_eq_some_iff, Option.some.injEq] at h
  obtain ⟨_, _, header, hread, rfl⟩ := h
  obtain ⟨rfl, hin⟩ := fread_some hread
  have hword : ∀ k, k + 4 ≤ 0x28 →
      readU32 ((file.f.drop (peSectionHeaderOff file num)).take 0x28) k =
        readU32 file.f (peSectionHeaderOff file num + k) :=
    fun k hk => readU32_window file.f hk
  refine ⟨hin, ?_, hword 0x08 (by decide), ?_, hword 0x10 (by decide), hword 0x14 (by decide),
    ?_, ?_, ?_⟩
  · rw [List.take_take]
    rfl
  · rw [← hword 0x0c (by decide)]
  · rw [← hword 0x24 (by decide)]
  · rw [← hword 0x24 (by decide)]
  · rw [← hword 0x24 (by decide)]

/-- The loop of `pe_find_file_offset` over the section headers from number `x` on. -/
def peFindFileOffsetLoop (sectionHdrs : List UInt8) (addr : ℕ) : ℕ → ℕ → Option ℕ
  | 0, _ => none
  | n + 1, x =>
    let header := sectionHdrs.drop (0x28 * x)
    let address := readU32 header 0x0c
    let dsize := readU32 header 0x10
    let offset := readU32 header 0x14
    if address ≤ addr ∧ addr < address + dsize then some (addr - address + offset)
    else peFindFileOffsetLoop sectionHdrs addr n (x + 1)

def peFindFileOffset (addr : ℕ) : Option ℕ := do
  let sectionHdrs ← fread file.f file.sectionsOff (0x28 * file.sectionsNum)
  peFindFileOffsetLoop sectionHdrs addr file.sectionsNum 0

/-- The buffer holds the rest of the file; what its readers see of it ends at the first NUL. -/
def peReadName (addr : ℕ) : Option CString := do
  let off ← peFindFileOffset file addr
  some (cstr (file.f.drop off))

/-- Entry `x` of the name table goes to the function its ordinal names; others are skipped. -/
def peNameAddrs (funcNum : ℕ) (nameTab ordsTab : List UInt8) : ℕ → ℕ → List ℕ → List ℕ
  | 0, _, out => out
  | n + 1, x, out =>
    let ord := readU16 ordsTab (2 * x)
    peNameAddrs funcNum nameTab ordsTab n (x + 1)
      (if funcNum ≤ ord then out else out.set ord (readU32 nameTab (4 * x)))

def peReadExportTable : Option PeExport := do
  let (addr, size) ← peGetDatadir file 0
  if addr = 0 ∨ size = 0 then
    some { dllname := 0, funcNum := 0, nameNum := 0, funcAddr := [], nameAddr := [] }
  else
    let off ← peFindFileOffset file addr
    let header ← fread file.f off 0x28
    let funcNum := readU32 header 0x14
    let nameNum := readU32 header 0x18
    let funcTabOff ← fseek ((readU32 header 0x1c : ℤ) - addr + off)
    let funcTab ← fread file.f funcTabOff (4 * funcNum)
    let nameTabOff ← fseek ((readU32 header 0x20 : ℤ) - addr + off)
    let nameTab ← fread file.f nameTabOff (4 * nameNum)
    let ordsTabOff ← fseek ((readU32 header 0x24 : ℤ) - addr + off)
    let ordsTab ← fread file.f ordsTabOff (4 * nameNum)
    -- the name table is read a second time before the function returns
    let _ ← fread file.f nameTabOff (4 * nameNum)
    some {
      dllname := readU32 header 0x0c
      funcNum := funcNum
      nameNum := nameNum
      funcAddr := (List.range funcNum).map fun x => file.baseAddr + readU32 funcTab (4 * x)
      nameAddr := peNameAddrs funcNum nameTab ordsTab nameNum 0 (List.replicate funcNum 0) }

def readThunks : List UInt8 → Option (List ℕ)
  | a :: b :: c :: d :: rest =>
    let info := readU32 [a, b, c, d] 0
    if info = 0 then some [] else (info :: ·) <$> readThunks rest
  | _ => none

/-- The loop over the descriptors that still fit the directory, `n` of them. -/
def peImportLoop (header : List UInt8) : ℕ → ℕ → PeImport → Option PeImport
  | 0, _, out => some out
  | n + 1, desc, out => do
    let origsAddr := readU32 header (desc + 0x0)
    let dnameAddr := readU32 header (desc + 0xc)
    let thunkAddr := readU32 header (desc + 0x10)
    if origsAddr = 0 ∨ thunkAddr = 0 then some out
    else
      let origsOff ← peFindFileOffset file origsAddr
      let thunkOff ← peFindFileOffset file thunkAddr
      let origs ← readThunks (file.f.drop origsOff)
      let names := origs.map fun info => if info < 0x80000000 then info + 2 else info
      let thunks ← readThunks (file.f.drop thunkOff)
      -- `unsigned x = thunk_addr;; x += 4`
      let slots := (List.range thunks.length).map fun k =>
        file.baseAddr + (thunkAddr + 4 * k) % 2 ^ 32
      peImportLoop header n (desc + 0x14) {
        addrNum := out.addrNum + slots.length
        nameNum := out.nameNum + names.length
        impAddr := out.impAddr ++ slots
        dllnameAddr := out.dllnameAddr ++ List.replicate slots.length dnameAddr
        nameAddr := out.nameAddr ++ names }

def peReadImportTable : Option PeImport := do
  let (addr, size) ← peGetDatadir file 1
  let off ← peFindFileOffset file addr
  let header ← fread file.f off size
  peImportLoop file header (size / 0x14) 0
    { addrNum := 0, nameNum := 0, impAddr := [], dllnameAddr := [], nameAddr := [] }

structure PeDirHeader where
  numName : ℕ
  numId : ℕ

def peDirReadHeader (pos : ℕ) : Option PeDirHeader := do
  let header ← fread file.f pos 0x10
  some { numName := readU16 header 0xc, numId := readU16 header 0xe }

structure PeDirEntry where
  id : ℕ
  off : ℕ
  dir : Bool

def peDirReadEntry (pos : ℕ) : Option PeDirEntry := do
  let entry ← fread file.f pos 0x8
  let off := readU32 entry 4
  some { id := readU32 entry 0, off := off % 2 ^ 31, dir := off.testBit 31 }

def peFindRsrcType (type dirOff : ℕ) : ℕ → ℕ → Option ℕ
  | 0, _ => some 0
  | n + 1, pos => do
    let entry ← peDirReadEntry file pos
    if entry.id ≠ type then peFindRsrcType type dirOff n (pos + 8)
    else if entry.dir = false then none
    else some (dirOff + entry.off)

/-- `*off` and `*dir_off`; the latter is not set when the file has no resources. -/
def peGetRsrcDir (type : ℕ) : Option (ℕ × ℕ) := do
  let (dirAddr, dirSize) ← peGetDatadir file 2
  if dirAddr = 0 ∨ dirSize = 0 then some (0, 0)
  else
    let dirOff ← peFindFileOffset file dirAddr
    let header ← peDirReadHeader file dirOff
    let off ← peFindRsrcType file type dirOff header.numId (dirOff + 0x10 + header.numName * 8)
    some (off, dirOff)

/-- One ID entry of the string-table directory, down to its data entry. -/
def peReadRsrcString (dirOff entryOff : ℕ) : Option (ℕ × ℕ × ℕ) := do
  let entry ← peDirReadEntry file entryOff
  guard (entry.dir = true)
  let subOff := dirOff + entry.off
  let subHeader ← peDirReadHeader file subOff
  guard (subHeader.numName = 0)
  guard (subHeader.numId = 1)
  let subEntry ← peDirReadEntry file (subOff + 0x10)
  guard (subEntry.dir = false)
  guard (subEntry.id = 0x409)
  let dataHeader ← fread file.f (dirOff + subEntry.off) 0x10
  some (entry.id, file.baseAddr + readU32 dataHeader 0, readU32 dataHeader 4)

def peReadRsrcStrings : Option PeRsrcString := do
  let (off, dirOff) ← peGetRsrcDir file 6
  if off = 0 then some { num := 0, id := [], addr := [], size := [] }
  else
    let header ← peDirReadHeader file off
    let entryOffBase := off + 0x10 + header.numName * 8
    let entries ← (List.range header.numId).mapM fun x =>
      peReadRsrcString file dirOff (entryOffBase + x * 8)
    some {
      num := header.numId
      id := entries.map fun e => e.1
      addr := entries.map fun e => e.2.1
      size := entries.map fun e => e.2.2 }

end Metroskrew.Relink
