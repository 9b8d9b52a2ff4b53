import Metroskrew.Dlls.Utils
import Metroskrew.Library.Descriptors

/-! The file calls of kernel32 over descriptors. A handle is a descriptor plus one. Where the program
ends, or looks outside a table, there is no result. -/

namespace Metroskrew.Dlls.FileHandles

open Metroskrew.Library.Descriptors

def GENERIC_READ : UInt32 := 0x80000000

def GENERIC_WRITE : UInt32 := 0x40000000

def FILE_ATTRIBUTE_NORMAL : UInt32 := 0x80

def INVALID_HANDLE_VALUE : UInt32 := 0xffffffff

def INVALID_FILE_SIZE : UInt32 := 0xffffffff

/-- The arguments of `CreateFileA`. -/
structure CreateFile where
  lpFileName : CString
  dwDesiredAccess : UInt32
  dwShareMode : UInt32
  lpSecurityAttributes : UInt32
  dwCreationDisposition : UInt32
  dwFlagsAndAttributes : UInt32
  hTemplateFile : UInt32
  deriving Repr, DecidableEq

/-- `O_CREAT`, `O_EXCL` and `O_TRUNC` by disposition. -/
def dispositionFlags : List (Bool × Bool × Bool) :=
  [(true, true, false),    -- CREATE_NEW
    (true, false, true),   -- CREATE_ALWAYS
    (false, false, false), -- OPEN_EXISTING
    (true, false, false),  -- OPEN_ALWAYS
    (false, false, true)]  -- TRUNCATE_EXISTING

def accessFlags (dwDesiredAccess : UInt32) : Option Access :=
  if dwDesiredAccess = GENERIC_WRITE then some .wronly
  else if dwDesiredAccess = GENERIC_READ then some .rdonly
  else if dwDesiredAccess = GENERIC_WRITE ||| GENERIC_READ then some .rdwr
  else none

def openFlags (args : CreateFile) : Option Flags := do
  guard (args.lpSecurityAttributes = 0)
  guard (args.dwFlagsAndAttributes &&& ~~~FILE_ATTRIBUTE_NORMAL = 0)
  guard (args.hTemplateFile = 0)
  guard ¬(args.dwCreationDisposition = 0 ∨ 6 < args.dwCreationDisposition)
  -- six passes the check and has no entry in the table
  let (creat, excl, trunc) ← dispositionFlags[(args.dwCreationDisposition - 1).toNat]?
  let access ← accessFlags args.dwDesiredAccess
  some ⟨access, creat, excl, trunc⟩

/-- `uFile - 1`; what is negative as an int is past every descriptor. -/
def fileno (uFile : UInt32) : ℕ := (uFile - 1).toNat

/-- What a call returns, with what it stores. -/
inductive Reply where
  | handle (res : UInt32)
  | bool (res : Bool)
  | read (res : Bool) (bytes : List UInt8)
  | written (res : Bool) (count : ℕ)
  | number (res : UInt32)
  deriving Repr, DecidableEq

section Model

variable {δ : Type*} [DecidableEq δ] (resolve : CString → δ) (host : Host) (sys : System δ)

def createFileA (args : CreateFile) : Option (Reply × System δ) :=
  match openFlags args with
  | none => none
  | some flags =>
    match sys.openAt (resolve (pathDupUnx args.lpFileName)) flags host with
    | none => some (.handle 0, sys)
    | some (fd, sys) => some (.handle (fd + 1).toUInt32, sys)

def closeHandle (hObject : UInt32) : Reply × System δ :=
  if 3 < hObject then
    let (res, sys) := sys.close (fileno hObject) host
    (.bool res, sys)
  else (.bool true, sys)

def readFile (hFile nNumberOfBytesToRead lpOverlapped : UInt32) : Option (Reply × System δ) :=
  if lpOverlapped ≠ 0 then none
  else
    match sys.read (fileno hFile) nNumberOfBytesToRead.toNat host with
    | (none, sys) => some (.read false [], sys)
    | (some bytes, sys) => some (.read true bytes, sys)

def writeFile (hFile : UInt32) (lpBuffer : List UInt8) (lpOverlapped : UInt32) :
    Option (Reply × System δ) :=
  if lpOverlapped ≠ 0 then none
  else
    match sys.write (fileno hFile) lpBuffer host with
    | (none, sys) => some (.written false 0, sys)
    | (some count, sys) => some (.written true count, sys)

def setFilePointer (hFile : UInt32) (lDistanceToMove : ℤ)
    (lpDistanceToMoveHigh dwMoveMethod : UInt32) : Option (Reply × System δ) :=
  if lpDistanceToMoveHigh ≠ 0 then none
  else
    match sys.lseek (fileno hFile) lDistanceToMove dwMoveMethod.toNat host with
    | (none, sys) => some (.number 0xffffffff, sys)
    | (some pos, sys) => some (.number pos.toUInt32, sys)

def getFileSize (hFile lpFileSizeHigh : UInt32) : Option Reply :=
  if lpFileSizeHigh ≠ 0 then none
  else
    match sys.size (fileno hFile) host with
    | none => some (.number INVALID_FILE_SIZE)
    | some size => some (.number size.toUInt32)

def deleteFileA (lpFileName : CString) : Reply × System δ :=
  let (res, sys) := sys.unlink (resolve (pathDupUnx lpFileName)) host
  (.bool res, sys)

def duplicateHandle (hSourceHandle : UInt32) : Option Reply :=
  if hSourceHandle < 1 ∨ 3 < hSourceHandle then none else some (.handle hSourceHandle)

def getStdHandle (nStdHandle : UInt32) : Reply :=
  let num := -nStdHandle - 10
  if 2 < num then .handle INVALID_HANDLE_VALUE else .handle (num + 1)

end Model

inductive Call where
  | createFileA (args : CreateFile)
  | closeHandle (hObject : UInt32)
  | readFile (hFile nNumberOfBytesToRead lpOverlapped : UInt32)
  | writeFile (hFile : UInt32) (lpBuffer : List UInt8) (lpOverlapped : UInt32)
  | setFilePointer (hFile : UInt32) (lDistanceToMove : ℤ)
      (lpDistanceToMoveHigh dwMoveMethod : UInt32)
  | getFileSize (hFile lpFileSizeHigh : UInt32)
  | deleteFileA (lpFileName : CString)
  | duplicateHandle (hSourceHandle : UInt32)
  | getStdHandle (nStdHandle : UInt32)
  /-- `FindFirstFileA` opens a directory. -/
  | opendir
  /-- `FindClose` closes a directory it has opened. -/
  | closedir (fd : ℕ)
  deriving Repr, DecidableEq

section Run

variable {δ : Type*} [DecidableEq δ] (resolve : CString → δ)

def call (host : Host) (sys : System δ) : Call → Option (Reply × System δ)
  | .createFileA args => createFileA resolve host sys args
  | .closeHandle hObject => some (closeHandle host sys hObject)
  | .readFile hFile n lpOverlapped => readFile host sys hFile n lpOverlapped
  | .writeFile hFile lpBuffer lpOverlapped => writeFile host sys hFile lpBuffer lpOverlapped
  | .setFilePointer hFile lDistanceToMove high method =>
    setFilePointer host sys hFile lDistanceToMove high method
  | .getFileSize hFile high => (getFileSize host sys hFile high).map (·, sys)
  | .deleteFileA lpFileName => some (deleteFileA resolve host sys lpFileName)
  | .duplicateHandle hSourceHandle => (duplicateHandle hSourceHandle).map (·, sys)
  | .getStdHandle nStdHandle => some (getStdHandle nStdHandle, sys)
  | .opendir =>
    match sys.openDevice host with
    | none => some (.bool false, sys)
    | some (_, sys) => some (.bool true, sys)
  | .closedir fd =>
    if 3 ≤ fd ∧ sys.fds.get fd = some .device then
      let (res, sys) := sys.close fd host
      some (.bool res, sys)
    else none

end Run

/-- A call with what the system decided in it, and with what it replied. -/
structure Event where
  host : Host
  call : Call
  reply : Reply

section Run

variable {δ : Type*} [DecidableEq δ] (resolve : CString → δ)

inductive Calls : System δ → List Event → System δ → Prop
  | nil (sys : System δ) : Calls sys [] sys
  | cons {sys sys' sys'' : System δ} {event : Event} {events : List Event}
      (step : call resolve event.host sys event.call = some (event.reply, sys'))
      (rest : Calls sys' events sys'') : Calls sys (event :: events) sys''

/-- The state after the calls, if they can have replied so. -/
def replay : System δ → List Event → Option (System δ)
  | sys, [] => some sys
  | sys, event :: events =>
    match call resolve event.host sys event.call with
    | none => none
    | some (r, sys') => if r = event.reply then replay sys' events else none

variable {resolve}

lemma replay_calls {sys sys' : System δ} {events : List Event}
    (h : replay resolve sys events = some sys') : Calls resolve sys events sys' := by
  induction events generalizing sys with
  | nil =>
    rw [replay, Option.some.injEq] at h
    exact h ▸ .nil sys
  | cons event events ih =>
    rw [replay] at h
    split at h
    · cases h
    · next r sys₁ hcall =>
      split_ifs at h with hreply
      exact .cons (hreply ▸ hcall) (ih h)

end Run

end Metroskrew.Dlls.FileHandles
