import Metroskrew.Dlls.GlobalMem
import Metroskrew.Dlls.Utils
import Metroskrew.Patch.Relpath

/-! The dependency file. Where the program ends with an error, or stores outside a buffer, there is
no result. -/

namespace Metroskrew.Patch

open Metroskrew.Dlls

def pathMax : ℕ := 0x104

def strbufSize : ℕ := pathMax * 2

structure MwPath where
  dir : CString
  file : CString

/-- Truncate file first, before truncating dir. -/
def pathJoin (src : MwPath) (dstSize : ℕ) : CString :=
  let dstSize := if dstSize = 0 then pathMax else dstSize
  let lenDir := src.dir.length
  let lenFile := src.file.length
  let (lenDir, lenFile) :=
    if lenFile + lenDir ≥ dstSize then
      if dstSize > lenDir then (lenDir, dstSize - lenDir - 1) else (dstSize - 1, 0)
    else (lenDir, lenFile)
  src.dir.take lenDir ++ src.file.take lenFile

structure MwString where
  data : Alloc
  size : ℕ

variable (fresh : ℕ → UInt8)

def stringAlloc (size : ℕ) : Option MwString := do
  let data ← globalAlloc fresh GMEM_ZEROINIT size
  some ⟨data, size⟩

def stringRealloc (string : MwString) (size : ℕ) : Option MwString := do
  let data ← globalReAlloc fresh string.data size (GMEM_ZEROINIT ||| GMEM_MOVEABLE)
  some ⟨data, size⟩

def stringData (string : MwString) : Option Alloc :=
  if globalFlags string.data = GMEM_INVALID_HANDLE then none else some string.data

def stringSize (string : MwString) : Option ℕ :=
  if globalFlags string.data = GMEM_INVALID_HANDLE then none else some string.size

def stringAppend (string : MwString) (data : CString) : Option MwString := do
  let curSize ← stringSize string
  let string ← stringRealloc fresh string (curSize + data.length)
  match stringData string with
  | none => some string
  | some curData => do
    let curData ← curData.store curSize data
    some { string with data := curData }

/-- The loop tests `*s`, and `s` stays where it is; `src` is the rest of the string with its
terminator, after which there is nothing to read. -/
def escapeLoop (s : CString) : CString → CString → Option CString
  | d, src =>
    if s = [] then some d
    else
      match src with
      | [] => none
      | c :: src => escapeLoop s ((if s.head? = some 0x20 then d ++ [0x5c] else d) ++ [c]) src
termination_by _ src => src.length

def depfileEscapeSpaces (doit : Bool) (src : CString) : Option CString :=
  if doit then escapeLoop src [] (src ++ [0]) else some src

/-- `memccpy` up to the terminator, and one at the end of `dst` where it did not fit. -/
def memccpyTerm (src : CString) (size : ℕ) : CString :=
  if src.length < size then src else src.take (size - 1)

/-- `sprintf` to `strbuf`, which has to hold the text and its terminator. -/
def sprintf (text : CString) : Option CString :=
  if text.length < strbufSize then some text else none

structure Host (Targets HeaderStruct : Type) where
  depfileGetTarget : Targets → ℕ → CString
  depfileGetHeader : HeaderStruct → ℤ → MwPath
  getcwd : Option CString

/-- The fields at the offsets found in the target program; `num_headers` is the number of
`headers`. -/
structure DepfileStruct (Targets : Type) where
  source : CString
  targets : Targets
  headers : List ℤ

def escaped (path : CString) : Option CString :=
  depfileEscapeSpaces (strchr path 0x20).isSome path

def backslash (more : Bool) : CString := if more then ascii "\\" else ascii ""

variable {Targets HeaderStruct : Type} (host : Host Targets HeaderStruct)
  (headerStruct : HeaderStruct)

def printHeader (header : ℤ) (more : Bool) (string : MwString) : Option MwString := do
  let headerFull := pathJoin (host.depfileGetHeader headerStruct header) pathMax
  let cwd ← host.getcwd
  let headerFull := slashLoop headerFull
  let rel ← relpath cwd headerFull
  let headerFull := memccpyTerm rel pathMax
  let headerEscaped ← escaped headerFull
  let strbuf ← sprintf (ascii "\t" ++ headerEscaped ++ ascii " " ++ backslash more ++ ascii "\n")
  stringAppend fresh string strbuf

def printHeaders : List ℤ → MwString → Option MwString
  | [], string => some string
  | header :: rest, string => do
    let string ← printHeader fresh host headerStruct header (rest ≠ []) string
    printHeaders rest string

def depfileBuild (depfileStruct : DepfileStruct Targets) : Option MwString := do
  let string ← stringAlloc fresh 0
  let numHeaders := depfileStruct.headers.length
  let target := host.depfileGetTarget depfileStruct.targets pathMax
  let string ←
    if target = [] then do
      let source := memccpyTerm (pathDupUnx depfileStruct.source) pathMax
      let sourceEscaped ← escaped source
      let strbuf ← sprintf (sourceEscaped ++ ascii ": " ++ backslash (numHeaders ≠ 0) ++ ascii "\n")
      stringAppend fresh string strbuf
    else do
      let target := memccpyTerm (pathDupUnx target) pathMax
      let targetEscaped ← escaped target
      let strbuf ← sprintf (targetEscaped ++ ascii ": ")
      let string ← stringAppend fresh string strbuf
      let source := memccpyTerm (pathDupUnx depfileStruct.source) pathMax
      let sourceEscaped ← escaped source
      let strbuf ← sprintf (sourceEscaped ++ ascii " " ++ backslash (numHeaders ≠ 0) ++ ascii "\n")
      stringAppend fresh string strbuf
  printHeaders fresh host headerStruct depfileStruct.headers string

end Metroskrew.Patch
