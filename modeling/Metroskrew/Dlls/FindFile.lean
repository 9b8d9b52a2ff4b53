import Mathlib.Data.List.DropRight
import Metroskrew.Dlls.Utils
import Metroskrew.Library.Heap

/-! The find handles of kernel32, with each block they allocate, read and free. A pointer that is not
to be followed or freed has no result, nor has a process that exits. -/

namespace Metroskrew.Dlls.FindFile

open Metroskrew.Library

/-- A path, a `struct findfile` with its `dir` and `path`, or the entries a `DIR` has left. -/
inductive Block where
  | path (text : CString)
  | findfile (dir path : Option ℕ)
  | dirStream (rest : List CString)
  deriving Repr, DecidableEq

inductive Stat where
  | found (isDir : Bool)
  | failed (errno : ℕ)

/-- `stat` may say something else each time it is called. -/
structure Os where
  opendir : CString → Option (List CString)
  stat : ℕ → CString → Stat

structure World where
  heap : Heap Block
  stats : ℕ
  errno : ℕ

structure FindData where
  dwFileAttributes : ℕ
  cFileName : CString
  deriving Repr, DecidableEq

def enoent : ℕ := 2

def maxPath : ℕ := 260

def invalidFileAttributes : ℕ := 0xffffffff

def fileAttributes (isDir : Bool) : ℕ := if isDir then 0x10 else 0x20

/-- What is behind the last `/`, or the whole path. -/
def component (path : CString) : CString := path.rtakeWhile (· ≠ 0x2f)

def fieldsOf (heap : Heap Block) (findfile : ℕ) : Option (Option ℕ × Option ℕ) :=
  match heap.live findfile with
  | some (.findfile dir path) => some (dir, path)
  | _ => none

def textOf (heap : Heap Block) (path : ℕ) : Option CString :=
  match heap.live path with
  | some (.path text) => some text
  | _ => none

def readdir (heap : Heap Block) (dir : ℕ) : Option (Option CString × Heap Block) :=
  match heap.live dir with
  | some (.dirStream []) => some (none, heap)
  | some (.dirStream (name :: rest)) => do
    let heap ← heap.store dir (.dirStream rest)
    some (some name, heap)
  | _ => none

def closedir (heap : Heap Block) (dir : ℕ) : Option (Heap Block) :=
  match heap.live dir with
  | some (.dirStream _) => heap.free dir
  | _ => none

def free (heap : Heap Block) (p : ℕ) : Option (Heap Block) :=
  match heap.live p with
  | some (.dirStream _) => none
  | _ => heap.free p

variable (os : Os)

def getFileAttributesDo (path : CString) (w : World) : ℕ × World :=
  match os.stat w.stats path with
  | .found isDir => (fileAttributes isDir, { w with stats := w.stats + 1 })
  | .failed errno => (invalidFileAttributes, { w with stats := w.stats + 1, errno })

/-- `full`, from the directory or from the handle, which gives it away. -/
def nextFull (findfile : ℕ) (heap : Heap Block) : Option (Option ℕ × Heap Block) := do
  let (dir, path) ← fieldsOf heap findfile
  match dir, path with
  | some dir, path => do
    let (name, heap) ← readdir heap dir
    match name with
    | none => some (none, heap)
    | some name =>
      let path ← path
      let text ← textOf heap path
      let (full, heap) := heap.malloc (.path (text ++ 0x2f :: name))
      some (some full, heap)
  | none, none => some (none, heap)
  | none, some full => do
    let heap ← heap.store findfile (.findfile none none)
    some (some full, heap)

def findNextFileADo (findfile : ℕ) : ℕ → World → Option (Option FindData × World)
  | 0, _ => none
  | fuel + 1, w => do
    let (full, heap) ← nextFull findfile w.heap
    match full with
    | none => some (none, { w with heap })
    | some full =>
      let path ← textOf heap full
      let (attrs, w) := getFileAttributesDo os path { w with heap }
      if attrs = invalidFileAttributes then
        let heap ← free w.heap full
        if w.errno = enoent then findNextFileADo findfile fuel { w with heap } else none
      else
        let path ← textOf w.heap full
        let file := component path
        let heap ← free w.heap full
        some (some ⟨attrs, file.take (maxPath - 1)⟩, { w with heap })

/-- The clean-up of `FindFirstFileA` and of `FindClose`. -/
def findClose (findfile : ℕ) (heap : Heap Block) : Option (Heap Block) := do
  let (dir, path) ← fieldsOf heap findfile
  let heap ← match dir with
    | some dir => closedir heap dir
    | none => some heap
  let heap ← match path with
    | some path => free heap path
    | none => some heap
  free heap findfile

/-- The directory is opened if one is to be listed; the outer result is `none` where that fails. -/
def openDir (dirPath : ℕ) (heap : Heap Block) : Option (Option (Option ℕ) × Heap Block) := do
  let text ← textOf heap dirPath
  let lenPath := text.length
  -- `dir_path[len_path - 2]` is in front of a shorter path
  if lenPath < 2 then none
  else if text[lenPath - 2]? = some 0x2f ∧ text[lenPath - 1]? = some 0x2a then
    let heap ← heap.store dirPath (.path (text.take (lenPath - 2)))
    match os.opendir (text.take (lenPath - 2)) with
    | none =>
      let heap ← free heap dirPath
      some (none, heap)
    | some entries =>
      let (dir, heap) := heap.malloc (.dirStream entries)
      some (some (some dir), heap)
  else some (some none, heap)

/-- `TRACE` is always a macro, so that `path` is there in every build. -/
def findFirstFileA (fuel : ℕ) (lpFileName : CString) (w : World) :
    Option (Option (ℕ × FindData) × World) := do
  let (path, heap) := w.heap.malloc (.path (pathDupUnx lpFileName))
  let (dirPath, heap) := heap.malloc (.path (pathDupUnx lpFileName))
  let (dir, heap) ← openDir os dirPath heap
  match dir with
  | none =>
    let heap ← free heap path
    some (none, { w with heap })
  | some dir =>
    let (findfile, heap) := heap.malloc (.findfile dir (some dirPath))
    let (found, w) ← findNextFileADo os findfile fuel { w with heap }
    match found with
    | none =>
      let heap ← findClose findfile w.heap
      let heap ← free heap path
      some (none, { w with heap })
    | some data =>
      let heap ← free w.heap path
      some (some (findfile, data), { w with heap })

def findNextFiles (findfile fuel : ℕ) : ℕ → World → Option (List (Option FindData) × World)
  | 0, w => some ([], w)
  | n + 1, w => do
    let (found, w) ← findNextFileADo os findfile fuel w
    let (founds, w) ← findNextFiles findfile fuel n w
    some (found :: founds, w)

/-- `FindFirstFileA`, and if it returns a handle `n` times `FindNextFileA` and then `FindClose`. -/
def run (fuel : ℕ) (lpFileName : CString) (n : ℕ) (w : World) :
    Option (Option FindData × List (Option FindData) × World) := do
  let (first, w) ← findFirstFileA os fuel lpFileName w
  match first with
  | none => some (none, [], w)
  | some (findfile, data) =>
    let (next, w) ← findNextFiles os findfile fuel n w
    let heap ← findClose findfile w.heap
    some (some data, next, { w with heap })

end Metroskrew.Dlls.FindFile
