import Metroskrew.Relink.PeFile

/-! `dump_asm`: the assembly file written for an executable, section by section. -/

namespace Metroskrew.Relink

/-- What one `fprintf` writes to the assembly file. Every `.incbin` reads the file given as
`incbin`; `rsrcString` is the label `pe_rsrc_strings_<id>` with the `.incbin` under it. -/
inductive Directive where
  | globl (name : CString)
  | label (name : CString)
  | assign (name : CString) (value : ℕ)
  | section (name flags type : CString)
  | incbin (off len : ℕ)
  | zero (len : ℕ)
  | long (symbol : CString)
  | rsrcString (id off len : ℕ)
  | rsrcEntry (id : ℕ)
  | rsrcEnd
  deriving Repr, DecidableEq

def hex (n : ℕ) : CString := (Nat.toDigits 16 n).map fun c => c.toNat.toUInt8

structure DumpExport where
  num : ℕ
  dllname : CString
  name : Option CString
  deriving Repr, DecidableEq

structure DumpImport where
  num : ℕ
  dllname : CString
  name : Option CString
  deriving Repr, DecidableEq

structure DumpRsrcString where
  id : ℕ
  size : ℕ
  deriving Repr, DecidableEq

structure Tables where
  file : PeFile
  exports : PeExport
  imports : PeImport
  rsrcStrings : PeRsrcString
  deriving Repr, DecidableEq

abbrev Dump := Except String

def orFail {α : Type} (message : String) : Option α → Dump α
  | some a => .ok a
  | none => .error message

/-- The lookup loop: the first entry with the address is read, and only that one. -/
def findFirst {α : Type} (addrs : List ℕ) (addr : ℕ) (read : ℕ → Dump α) : Dump (Option α) :=
  match addrs.findIdx? (· = addr) with
  | none => .ok none
  | some x => some <$> read x

variable (t : Tables)

def dumpExportAt (x : ℕ) : Dump DumpExport := do
  let dllname ← orFail "Failed to read dllname" (peReadName t.file t.exports.dllname)
  if x < t.exports.nameNum then
    let name ← orFail "Failed to read export name"
      (peReadName t.file (t.exports.nameAddr.getD x 0))
    return { num := x, dllname := dllname, name := some name }
  else
    return { num := x, dllname := dllname, name := none }

def dumpFindExport (addr : ℕ) : Dump (Option DumpExport) :=
  findFirst t.exports.funcAddr addr (dumpExportAt t)

def cutAt (name : CString) : CString := name.takeWhile (· ≠ 0x40)

def ordinalSymbol (dllname : CString) (num : ℕ) : CString :=
  ascii "_" ++ dllname ++ ascii "_" ++ hex num

def dumpDoExport (dump : DumpExport) : List Directive × ℕ :=
  let ord := ordinalSymbol dump.dllname dump.num
  let named := match dump.name with
    | some name => [.globl (cutAt name), .label (cutAt name)]
    | none => []
  ([.globl ord, .label ord] ++ named, 0)

def dumpImportAt (x : ℕ) : Dump DumpImport := do
  let dllname ← orFail "Failed to read dllname"
    (peReadName t.file (t.imports.dllnameAddr.getD x 0))
  if x < t.imports.nameNum then
    let off := t.imports.nameAddr.getD x 0
    if 0x80000000 ≤ off then
      return { num := off - 0x80000000, dllname := dllname, name := none }
    else
      let name ← orFail "Failed to read import name" (peReadName t.file off)
      return { num := 0, dllname := dllname, name := some name }
  else
    return { num := 0, dllname := dllname, name := none }

def dumpFindImport (addr : ℕ) : Dump (Option DumpImport) :=
  findFirst t.imports.impAddr addr (dumpImportAt t)

/-- The functions the startfiles use under a `my_` prefix. -/
def myFuncs : List CString :=
  [ascii "GetLastError", ascii "GetFileAttributesA", ascii "GetModuleHandleA",
    ascii "LoadLibraryA", ascii "FreeLibrary"]

variable (win : Bool)

def importSymbol (dump : DumpImport) : CString :=
  match dump.name with
  | some name =>
    let name := cutAt name
    (if win then ascii "_" else []) ++ (if name ∈ myFuncs then ascii "my_" else []) ++ name
  | none => ordinalSymbol dump.dllname dump.num

def dumpDoImport (dump : DumpImport) : List Directive × ℕ :=
  ([.long (importSymbol win dump)], 4)

def dumpFindRsrcString (addr : ℕ) : Option DumpRsrcString :=
  match t.rsrcStrings.addr.findIdx? (· = addr) with
  | none => none
  | some x => some { id := t.rsrcStrings.id.getD x 0, size := t.rsrcStrings.size.getD x 0 }

def dumpDoRsrcString (dump : DumpRsrcString) (pos : ℕ) : List Directive × ℕ :=
  ([.rsrcString dump.id pos dump.size], dump.size)

structure Found where
  exp : Option DumpExport
  imp : Option DumpImport
  rsrc : Option DumpRsrcString
  deriving Repr, DecidableEq

def Found.dump (found : Found) : Bool :=
  found.exp.isSome || found.imp.isSome || found.rsrc.isSome

def findAt (addr : ℕ) : Dump Found := do
  let exp ← dumpFindExport t addr
  let imp ← dumpFindImport t addr
  return { exp := exp, imp := imp, rsrc := dumpFindRsrcString t addr }

variable (sec : PeSection)

/-- The lines that bring the section from `lastPos` up to `pos`. -/
def flushTo (lastPos pos : ℕ) : List Directive :=
  if lastPos = pos then []
  else if pos ≤ sec.dsize then [.incbin (sec.offset + lastPos) (pos - lastPos)]
  else if lastPos < sec.dsize then
    [.incbin (sec.offset + lastPos) (sec.dsize - lastPos), .zero (pos - sec.dsize)]
  else [.zero (pos - lastPos)]

def dumpFound (pos : ℕ) (found : Found) : List Directive × ℕ :=
  let exp := (found.exp.map dumpDoExport).getD ([], 0)
  let imp := (found.imp.map (dumpDoImport win)).getD ([], 0)
  let rsrc := (found.rsrc.map fun dump => dumpDoRsrcString dump (sec.offset + pos)).getD ([], 0)
  (exp.1 ++ imp.1 ++ rsrc.1, exp.2 + imp.2 + rsrc.2)

/-- The `while (pos <= size)` loop of `dump_asm`; each line is kept with the `pos` at which it was
printed. -/
def sectionLoop (pos lastPos : ℕ) : Dump (List (ℕ × Directive)) :=
  if _ : pos ≤ sec.vsize then
    match findAt t (sec.address + pos) with
    | .error message => .error message
    | .ok found =>
      if found.dump = false ∧ ¬ sec.vsize ≤ pos then sectionLoop (pos + 1) lastPos
      else
        let lines := flushTo sec lastPos pos ++ (dumpFound win sec pos found).1
        let next := pos + (dumpFound win sec pos found).2
        (lines.map (fun line => (pos, line)) ++ ·) <$>
          if _ : next ≠ pos then sectionLoop next next else sectionLoop (pos + 1) pos
  else .ok []
termination_by sec.vsize + 1 - pos
decreasing_by all_goals simp_wf; omega

structure SectionDump where
  sec : PeSection
  header : List Directive
  body : List (ℕ × Directive)
  deriving Repr, DecidableEq

def sectionHeader : List Directive :=
  let name := if sec.name.head? = some 0x2e then sec.name.tail else sec.name
  let bss := sec.name = ascii ".bss"
  let addr := ascii "pe_" ++ name ++ ascii "_addr"
  let flags := (if sec.r then ascii "a" else []) ++
    (if sec.w then ascii "w" else if win then ascii "r" else []) ++
    (if sec.x then ascii "x" else []) ++ (if win ∧ bss then ascii "b" else [])
  let type := if ¬ win ∧ bss then ascii "@nobits" else []
  [.globl addr, .assign addr sec.address, .section (ascii ".pe_" ++ name) flags type]

def dumpSection (x : ℕ) : Dump SectionDump := do
  let sec ← orFail s!"Failed to read section {x}" (peReadSectionHeader t.file x)
  let body ← sectionLoop t win sec 0 0
  return { sec := sec, header := sectionHeader win sec, body := body }

structure AsmDump where
  start : List Directive
  sections : List SectionDump
  strings : List Directive
  deriving Repr, DecidableEq

def rsrcTable : List Directive :=
  [.section (ascii ".pe_rsrc_strings") (ascii "a") [], .globl (ascii "pe_rsrc_strings"),
    .label (ascii "pe_rsrc_strings")] ++
  (List.range t.rsrcStrings.num).map (fun x =>
    .rsrcEntry (t.rsrcStrings.id.getD x 0)) ++
  [.rsrcEnd]

def readTables (file : PeFile) : Dump Tables := do
  let exports ← orFail "Failed to read export table" (peReadExportTable file)
  let imports ← orFail "Failed to read import table" (peReadImportTable file)
  let rsrcStrings ← orFail "Failed to read string resources" (peReadRsrcStrings file)
  return { file := file, exports := exports, imports := imports, rsrcStrings := rsrcStrings }

def dumpAsm (file : PeFile) : Dump AsmDump := do
  let t ← readTables file
  let sections ← (List.range file.sectionsNum).mapM (dumpSection t win)
  return {
    start := [.globl (ascii "pe_start"), .assign (ascii "pe_start") (peGetEntrypoint file)]
    sections := sections
    strings := rsrcTable t }

end Metroskrew.Relink
