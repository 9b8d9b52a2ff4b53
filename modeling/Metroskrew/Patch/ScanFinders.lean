import Metroskrew.Patch.ScanText

/-! The finders of scan.c and `scan_bin`, with every read of the file checked: a read that leaves
the file has no result. -/

namespace Metroskrew.Patch

/-- `stop` is the field `end`. -/
structure Loc where
  name : String
  start : ℕ
  stop : ℕ
  raw : Bool
  deriving Repr, DecidableEq

/-- `pos + code[k].off + code[k].size` -/
def Region.next (cur : Region) (pos : ℕ) : ℕ := pos + cur.off.toNat + cur.data.length

def int32 (w : ℕ) : ℤ := if w < 2 ^ 31 then w else w - 2 ^ 32

variable (binary : List UInt8)

def bytesAt (off len : ℕ) : Option (List UInt8) :=
  if off + len ≤ binary.length then some ((binary.drop off).take len) else none

/-- `memmem` on the file from `start` on, with the place found as an offset into the file. -/
def memmemFrom (needle : List UInt8) (start : ℕ) : Option (Option ℕ) := do
  let hay ← bytesAt binary start (sizeT (binary.length - start))
  some ((memmem needle hay).map (start + ·))

def restReads (scanBase : ℕ) : List Region → Option Bool
  | [] => some true
  | cur :: rest => do
    let scanOff := sizeT (scanBase + cur.off)
    if binary.length < scanOff then some false
    else if binary.length < (scanOff + cur.data.length) % 2 ^ 64 then some false
    else
      let bytes ← bytesAt binary scanOff cur.data.length
      if bytes ≠ cur.data then some false else restReads scanBase rest

lemma memmemFrom_bounds (cur : Region) {off p : ℕ} (h : memmemFrom binary cur.data off = some (some p)) :
    off ≤ p ∧ p < binary.length := by
  simp only [memmemFrom, bytesAt, bind, Option.bind_eq_some_iff, Option.some.injEq,
    Option.map_eq_some_iff] at h
  obtain ⟨hay, hhay, q, hq, rfl⟩ := h
  split_ifs at hhay with hin
  obtain rfl := Option.some.inj hhay
  have hlt := cur.memmem_lt hq
  rw [List.length_take, List.length_drop] at hlt
  omega

def scanReads (cur : Region) (rest : List Region) (off : ℕ) : Option (Option ℕ) :=
  match _ : memmemFrom binary cur.data off with
  | none => none
  | some none => some none
  | some (some p) =>
    let scanBase := sizeT (p - cur.off)
    if binary.length < scanBase then scanReads cur rest (p + 1)
    else
      match restReads binary scanBase rest with
      | none => none
      | some true => some (some scanBase)
      | some false => scanReads cur rest (p + 1)
termination_by binary.length + 1 - off
decreasing_by
  all_goals
    have := memmemFrom_bounds binary cur (by assumption)
    omega

/-- `while (off < binary->size && binary->data[off] == 0x90) off++;` -/
def skipNops (off : ℕ) : ℕ :=
  if h : off < binary.length then if binary[off] = 0x90 then skipNops (off + 1) else off else off
termination_by binary.length - off

def fsCode : Region :=
  ⟨0, [0x64, 0xa1, 0x00, 0x00, 0x00, 0x00, 0x50, 0x64, 0x89, 0x25, 0x00, 0x00, 0x00, 0x00], by decide⟩

/-- The loop of `find_fs` and the search behind it, with the offset of the warning; `needle` is the
array `code` as it is in memory. -/
def findFsLeft (needle : List UInt8) : List String → ℕ → Option (List Loc × Option ℕ)
  | [], off => do
    let left ← memmemFrom binary needle off
    some ([], left)
  | name :: names, off => do
    match ← scanReads binary fsCode [] off with
    | none => some ([], none)
    | some pos =>
      let (locs, left) ← findFsLeft needle names (pos + 1)
      some (⟨name, pos, pos + fsCode.data.length, false⟩ :: locs, left)

/-- The blocks of `find_fs`. They do not depend on the needle of the last search. -/
def findFs : Option (List Loc) :=
  (findFsLeft binary [] ["fs_1", "fs_2", "fs_3"] 0).map Prod.fst

def initSentinel : Region := ⟨0, [0x85, 0xc0, 0x75, 0x08, 0x6a, 0xff, 0xe8], by decide⟩
def initEnvp : Region := ⟨33, [0xff, 0x35], by decide⟩
def initArgv : Region := ⟨39, [0xff, 0x35], by decide⟩
def initArgc : Region := ⟨45, [0xff, 0x35], by decide⟩
def callInitArgs : Region := ⟨12, [0xe8], by decide⟩
def callInitEnvp : Region := ⟨17, [0xe8], by decide⟩
def callMain : Region := ⟨51, [0xe8], by decide⟩

def initRest : List Region := [initEnvp, initArgv, initArgc, callInitArgs, callInitEnvp, callMain]

def endInitArgs : List UInt8 := [0x89, 0xf2, 0x2b, 0x55, 0xec]
def endInitEnvp : List UInt8 := [0x5b, 0xc3]

/-- `read_u32(pos + code[k].off + code[k].size) + off + code[k].off + 5` -/
def initStart (off : ℕ) (call : Region) : Option ℕ := do
  let operand ← readAt binary (call.next off)
  some (sizeT (operand + off + call.off + 5))

def findInit : Option (List Loc) := do
  match ← scanReads binary initSentinel initRest 0 with
  | none => some []
  | some off =>
    let envp ← readAt binary (initEnvp.next off)
    let argv ← readAt binary (initArgv.next off)
    let argc ← readAt binary (initArgc.next off)
    let argsStart ← initStart binary off callInitArgs
    let argsEnd ← memmemFrom binary endInitArgs argsStart
    let envStart ← initStart binary off callInitEnvp
    let envEnd ← memmemFrom binary endInitEnvp envStart
    let mainStart ← initStart binary off callMain
    some [
      ⟨"envp", envp, 0, false⟩,
      ⟨"argv", argv, 0, false⟩,
      ⟨"argc", argc, 0, false⟩,
      ⟨"init_args", argsStart, (argsEnd.map (· + endInitArgs.length + 11)).getD 0, false⟩,
      ⟨"init_envp", envStart,
        (envEnd.map fun e => skipNops binary (e + endInitEnvp.length)).getD 0, false⟩,
      ⟨"main", mainStart, mainStart, false⟩]

/-- The code, up to what `after` makes of the first place where `endCode` follows it. -/
def findEnding (name : String) (code : Region) (endCode : List UInt8) (after : ℕ → ℕ) :
    Option (List Loc) := do
  match ← scanReads binary code [] 0 with
  | none => some []
  | some off =>
    let found ← memmemFrom binary endCode off
    some [⟨name, off, (found.map after).getD 0, false⟩]

def getenvCode : Region := ⟨0, [0x31, 0xc0, 0x56, 0x57, 0x83, 0xec, 0x04], by decide⟩
def getenvEnd : List UInt8 := [0x31, 0xc0, 0x83, 0xc4, 0x04, 0x5f, 0x5e, 0xc3]

def findGetenv : Option (List Loc) :=
  findEnding binary "getenv" getenvCode getenvEnd fun e => skipNops binary (e + getenvEnd.length)

def findexeCode : Region :=
  ⟨0, [0x57, 0x55, 0x81, 0xec, 0x08, 0x02, 0x00, 0x00, 0x8b, 0xac, 0x24, 0x18, 0x02, 0x00, 0x00],
    by decide⟩
def findexeEnd : List UInt8 := [0x90, 0x90]

def findFindexe : Option (List Loc) :=
  findEnding binary "findexe" findexeCode findexeEnd (skipNops binary)

def memreuseCode : Region := ⟨0, [0x53, 0x8b, 0x1d], by decide⟩
def memreuseMalloc : Region := ⟨23, [0xe8], by decide⟩
def memreuseStore : Region := ⟨28, [0xa3], by decide⟩
def memreuseEbp : Region := ⟨117, [0x8b, 0x2d], by decide⟩
def memreuseCall : Region := ⟨205, [0xe8], by decide⟩
def memreuseEdx : Region := ⟨240, [0x8b, 0x15], by decide⟩
def memreuseEnd : Region :=
  ⟨417, [0xc7, 0x44, 0x24, 0x04, 0x01, 0x00, 0x00, 0x00, 0xeb, 0xa9, 0x90, 0x90, 0x90, 0x90, 0x90],
    by decide⟩

def memreuseRest : List Region :=
  [memreuseMalloc, memreuseStore, memreuseEbp, memreuseCall, memreuseEdx, memreuseEnd]

/-- `off + code[k].off + code[k].size + 4 + (int32_t)read_u32(pos + code[k].off + code[k].size)` -/
def memreuseStart (off : ℕ) (call : Region) : Option ℕ := do
  let operand ← readAt binary (call.next off)
  some (sizeT (off + call.off + call.data.length + 4 + int32 operand))

def findMemreuse01 : Option (List Loc) := do
  match ← scanReads binary memreuseCode memreuseRest 0 with
  | none => some []
  | some off =>
    let dat0063a798 ← readAt binary (memreuseCode.next off)
    let dat0063ccf0 ← readAt binary (memreuseStore.next off)
    let dat0063a828 ← readAt binary (memreuseEbp.next off)
    let dat0063ccb0 ← readAt binary (memreuseEdx.next off)
    let mallocStart ← memreuseStart binary off memreuseMalloc
    let callStart ← memreuseStart binary off memreuseCall
    some [
      ⟨"FUN_00505340", off + memreuseCode.off.toNat, memreuseEnd.next off, false⟩,
      ⟨"DAT_0063a798", dat0063a798, 0, false⟩,
      ⟨"DAT_0063ccf0", dat0063ccf0, 0, false⟩,
      ⟨"DAT_0063a828", dat0063a828, 0, false⟩,
      ⟨"DAT_0063ccb0", dat0063ccb0, 0, false⟩,
      ⟨"prog_malloc", mallocStart, mallocStart, false⟩,
      ⟨"FUN_004f8b60", callStart, callStart, false⟩]

def depfileCode : Region :=
  ⟨0, [0x53, 0x56, 0x57, 0x55, 0x81, 0xec, 0x1c, 0x08, 0x00, 0x00,
    0x8b, 0x9c, 0x24, 0x34, 0x08, 0x00, 0x00], by decide⟩
def codeGetTarget : Region :=
  ⟨0, [0x53, 0x56, 0x57, 0x55, 0x81, 0xec, 0x0c, 0x03, 0x00, 0x00, 0x8d, 0x9c, 0x24], by decide⟩
def codeGetHeader : Region :=
  ⟨0, [0x8b, 0x4c, 0x24, 0x04, 0x8b, 0x44, 0x24, 0x08, 0x8d, 0x04, 0x80,
    0x8d, 0x04, 0x85, 0x00, 0x00, 0x00, 0x00], by decide⟩
def pushCode : List UInt8 := [0x68, 0x04, 0x01, 0x00, 0x00]

/-- The offsets of `source`, `targets`, `num_headers` and `headers` in the versions of the struct. -/
def depfileStruct (structOff : ℕ) : Option (ℕ × ℕ × ℕ × ℕ) :=
  if structOff = 0x870 then some (0x1c, 0x423, 0x870, 0x878)
  else if structOff = 0x86c then some (0x1c, 0x422, 0x86c, 0x874)
  else none

/-- The version from the operand before the push; `build` is where `depfile_build` starts. -/
def depfileVersion (build : ℕ) : Option (Option (ℕ × ℕ × ℕ × ℕ)) := do
  if build < 4 then some none
  else if sizeT (binary.length - build) < 0x80 then some none
  else
    let hay ← bytesAt binary build 0x80
    match memmem pushCode hay with
    | none => some none
    | some push =>
      let structOff ← readAt binary (build + push - 4)
      some (depfileStruct structOff)

def findDepfile : Option (List Loc) := do
  match ← scanReads binary depfileCode [] 0 with
  | none => some []
  | some build =>
    match ← scanReads binary codeGetTarget [] 0 with
    | none => some []
    | some target =>
      match ← scanReads binary codeGetHeader [] 0 with
      | none => some []
      | some header =>
        match ← depfileVersion binary build with
        | none => some []
        | some (source, targets, numHeaders, headers) =>
          some [
            ⟨"depfile_build", build, build + depfileCode.data.length, false⟩,
            ⟨"depfile_get_target", target, target + codeGetTarget.data.length, false⟩,
            ⟨"depfile_get_header", header, header + codeGetHeader.data.length, false⟩,
            ⟨"off_depfile_struct__source", source, 0, true⟩,
            ⟨"off_depfile_struct__targets", targets, 0, true⟩,
            ⟨"off_depfile_struct__num_headers", numHeaders, 0, true⟩,
            ⟨"off_depfile_struct__headers", headers, 0, true⟩]

/-- What is printed for one location: `code_X`, `code_X.end`, and `addr_X` relative to the text
section or as a number. -/
inductive Line where
  | code (name : String) (start : ℕ)
  | codeEnd (name : String) (stop : ℕ)
  | addrInText (name : String)
  | addr (name : String) (start : ℕ)
  | raw (name : String) (start : ℕ)
  deriving Repr, DecidableEq

def printLoc (text : Option TextDefs) (loc : Loc) : List Line :=
  let peTextOff := (text.map TextDefs.peTextOff).getD 0
  let peTextLen := (text.map TextDefs.peTextLen).getD 0
  let peTextEnd := (peTextOff + peTextLen) % 2 ^ 32
  if loc.stop ≠ 0 then
    [.code loc.name loc.start] ++
      (if loc.stop ≠ loc.start then [.codeEnd loc.name loc.stop] else []) ++
      (if peTextOff ≤ loc.start ∧ loc.start < peTextEnd ∧ peTextOff ≤ loc.stop ∧
          loc.stop < peTextEnd then [.addrInText loc.name] else [])
  else if loc.raw = false then [.addr loc.name loc.start]
  else [.raw loc.name loc.start]

structure ScanOut where
  text : Option TextDefs
  locs : List Loc
  deriving Repr, DecidableEq

/-- The locations are printed in the order `qsort` gives them. -/
def scanBin : Option ScanOut := do
  let fs ← findFs binary
  let init ← findInit binary
  let getenv ← findGetenv binary
  let findexe ← findFindexe binary
  let memreuse01 ← findMemreuse01 binary
  let depfile ← findDepfile binary
  let _ ← scanReads binary textName [textFlags] 0
  let text ← scanBinText binary
  some ⟨text, fs ++ init ++ getenv ++ findexe ++ memreuse01 ++ depfile⟩

end Metroskrew.Patch
