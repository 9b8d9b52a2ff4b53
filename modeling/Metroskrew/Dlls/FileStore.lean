import Metroskrew.Dlls.FileHandles

/-! What the file calls promise the program: named files of bytes, and handles with a position of
their own. A file behind a single handle is edited as if nothing else went on. -/

namespace Metroskrew.Dlls.FileStore

open Metroskrew.Library.Descriptors Metroskrew.Dlls.FileHandles

inductive Disposition where
  | createNew | createAlways | openExisting | openAlways | truncateExisting
  deriving Repr, DecidableEq

namespace Disposition

def ofNumber : ℕ → Option Disposition
  | 1 => some createNew
  | 2 => some createAlways
  | 3 => some openExisting
  | 4 => some openAlways
  | 5 => some truncateExisting
  | _ => none

/-- Whether it takes a file that is there. -/
def opens : Disposition → Bool
  | createNew => false
  | _ => true

/-- Whether it makes a file that is not there. -/
def creates : Disposition → Bool
  | createNew | createAlways | openAlways => true
  | openExisting | truncateExisting => false

def empties : Disposition → Bool
  | createAlways | truncateExisting => true
  | _ => false

end Disposition

structure Request where
  disposition : Disposition
  access : Access
  deriving Repr, DecidableEq

/-- What a supported `CreateFileA` asks for. -/
def request (args : CreateFile) : Option Request := do
  guard (args.lpSecurityAttributes = 0)
  guard (args.dwFlagsAndAttributes &&& ~~~FILE_ATTRIBUTE_NORMAL = 0)
  guard (args.hTemplateFile = 0)
  let disposition ← Disposition.ofNumber args.dwCreationDisposition.toNat
  let access ← accessFlags args.dwDesiredAccess
  some ⟨disposition, access⟩

/-- The handle that a call works on. -/
def handleOf : Call → Option UInt32
  | .readFile hFile _ _ | .writeFile hFile _ _ | .setFilePointer hFile _ _ _
  | .getFileSize hFile _ => some hFile
  | _ => none

/-- A file with the one position it is edited at. -/
structure Editor where
  bytes : List UInt8
  pos : ℕ
  access : Access

namespace Editor

inductive Step (e : Editor) : Event → Editor → Prop
  | read {host : Host} {hFile n : UInt32} {bytes : List UInt8} (hreads : e.access.reads = true)
      (hbytes : bytes <+: (e.bytes.drop e.pos).take n.toNat)
      (hend : bytes = [] → n = 0 ∨ e.bytes.length ≤ e.pos) :
      Step e ⟨host, .readFile hFile n 0, .read true bytes⟩ { e with pos := e.pos + bytes.length }
  | not_read {host : Host} {hFile n : UInt32} (h : host.permits = false ∨ e.access.reads = false) :
      Step e ⟨host, .readFile hFile n 0, .read false []⟩ e
  | written {host : Host} {hFile : UInt32} {buf : List UInt8} {count : ℕ}
      (hwrites : e.access.writes = true) (hcount : count ≤ buf.length) :
      Step e ⟨host, .writeFile hFile buf 0, .written true count⟩
        { e with bytes := overwrite e.bytes e.pos (buf.take count), pos := e.pos + count }
  | not_written {host : Host} {hFile : UInt32} {buf : List UInt8}
      (h : host.permits = false ∨ e.access.writes = false) :
      Step e ⟨host, .writeFile hFile buf 0, .written false 0⟩ e
  | moved {host : Host} {hFile method : UInt32} {distance : ℤ} {base pos : ℕ}
      (hbase : [0, e.pos, e.bytes.length][method.toNat]? = some base)
      (hpos : (pos : ℤ) = base + distance) :
      Step e ⟨host, .setFilePointer hFile distance 0 method, .number pos.toUInt32⟩
        { e with pos := pos }
  /-- The data or the hole at the distance or past it, wherever the system has it. -/
  | found {host : Host} {hFile method : UInt32} {distance : ℤ} {pos : ℕ}
      (hmethod : method.toNat = 3 ∨ method.toNat = 4) (hpos : 0 ≤ distance ∧ distance ≤ pos)
      (hend : pos ≤ e.bytes.length) :
      Step e ⟨host, .setFilePointer hFile distance 0 method, .number pos.toUInt32⟩
        { e with pos := pos }
  | not_moved {host : Host} {hFile method : UInt32} {distance : ℤ}
      (h : host.permits = false ∨
        ∀ base, [0, e.pos, e.bytes.length][method.toNat]? = some base → base + distance < 0) :
      Step e ⟨host, .setFilePointer hFile distance 0 method, .number 0xffffffff⟩ e
  | size {host : Host} {hFile : UInt32} :
      Step e ⟨host, .getFileSize hFile 0, .number e.bytes.length.toUInt32⟩ e
  | no_size {host : Host} {hFile : UInt32} (h : host.permits = false) :
      Step e ⟨host, .getFileSize hFile 0, .number INVALID_FILE_SIZE⟩ e

inductive Run : Editor → List Event → Editor → Prop
  | nil (e : Editor) : Run e [] e
  | cons {e e' e'' : Editor} {event : Event} {events : List Event} (step : Step e event e')
      (rest : Run e' events e'') : Run e (event :: events) e''

end Editor

structure Store (δ : Type*) where
  names : δ → Option Node
  bytes : ℕ → List UInt8
  handles : UInt32 → Option Object
  limit : ℕ

namespace Store

variable {δ : Type*} (resolve : CString → δ)

/-- Every handle the program could get is taken. -/
def Full (s : Store δ) : Prop := ∀ h : UInt32, 3 < h → h.toNat ≤ s.limit → s.handles h ≠ none

def edit (s : Store δ) (h : UInt32) (file : ℕ) (e : Editor) : Store δ :=
  { s with
    bytes := Function.update s.bytes file e.bytes
    handles := Function.update s.handles h (some (.file ⟨file, e.pos, e.access⟩)) }

/-- What a call says of a handle that is not open. -/
inductive Refused : Call → Reply → Prop
  | read {h n : UInt32} : Refused (.readFile h n 0) (.read false [])
  | write {h : UInt32} {buf : List UInt8} : Refused (.writeFile h buf 0) (.written false 0)
  | move {h method : UInt32} {distance : ℤ} :
      Refused (.setFilePointer h distance 0 method) (.number 0xffffffff)
  | size {h : UInt32} : Refused (.getFileSize h 0) (.number INVALID_FILE_SIZE)

def editor (s : Store δ) (o : OpenFile) : Editor := ⟨s.bytes o.inode, o.pos, o.access⟩

/-- `h` is the only handle on its file. -/
structure Sole (s : Store δ) (h : UInt32) (o : OpenFile) : Prop where
  open_ : s.handles h = some (.file o)
  apart : ∀ h' o', h' ≠ h → s.handles h' = some (.file o') → o'.inode ≠ o.inode

/-- The call neither closes `h` nor opens the file behind it by a name. -/
def Spares (s : Store δ) (h : UInt32) (i : ℕ) (c : Call) : Prop :=
  c ≠ .closeHandle h ∧
    ∀ args, c = .createFileA args → s.names (resolve (pathDupUnx args.lpFileName)) ≠ some (.file i)

variable {s s' : Store δ} {h : UInt32} {o : OpenFile}

/-- A handle that changes hands is not the sole one on a file. -/
lemma Sole.update (hs : s.Sole h o) {h' : UInt32} (hne : h' ≠ h) (object : Option Object)
    (hother : ∀ o', object = some (.file o') → o'.inode ≠ o.inode) (hhandles :
      s'.handles = Function.update s.handles h' object) : s'.Sole h o := by
  constructor
  · rw [hhandles, Function.update_of_ne hne.symm, hs.open_]
  · intro h'' o' hne' ho'
    rw [hhandles] at ho'
    by_cases heq : h'' = h'
    · subst heq
      rw [Function.update_self] at ho'
      exact hother o' ho'
    · rw [Function.update_of_ne heq] at ho'
      exact hs.apart h'' o' hne' ho'

/-- What a step leaves of the file behind a sole handle. -/
structure Kept (s s' : Store δ) (h : UInt32) (o : OpenFile) (event : Event) : Prop where
  names : ∀ d, s'.names d = some (.file o.inode) → s.names d = some (.file o.inode)
  sole : ∃ o', s'.Sole h o' ∧ o'.inode = o.inode ∧
    if handleOf event.call = some h then (s.editor o).Step event (s'.editor o')
    else s'.editor o' = s.editor o

lemma Kept.of_eq {event : Event} (hs : s.Sole h o) (hcall : handleOf event.call ≠ some h) :
    Kept s s h o event :=
  ⟨fun _ hd => hd, o, hs, rfl, by rw [if_neg hcall]⟩

variable [DecidableEq δ]

inductive Step (s : Store δ) : Event → Store δ → Prop
  | opened {host : Host} {args : CreateFile} {r : Request} {i : ℕ} {h : UInt32}
      (hr : request args = some r)
      (hname : s.names (resolve (pathDupUnx args.lpFileName)) = some (.file i))
      (hopens : r.disposition.opens = true) (hown : 3 < h) (hfree : s.handles h = none) :
      Step s ⟨host, .createFileA args, .handle h⟩ { s with
        bytes := if r.disposition.empties then Function.update s.bytes i [] else s.bytes
        handles := Function.update s.handles h (some (.file ⟨i, 0, r.access⟩)) }
  | device_opened {host : Host} {args : CreateFile} {r : Request} {h : UInt32}
      (hr : request args = some r)
      (hname : s.names (resolve (pathDupUnx args.lpFileName)) = some .device)
      (hopens : r.disposition.opens = true) (hown : 3 < h) (hfree : s.handles h = none) :
      Step s ⟨host, .createFileA args, .handle h⟩
        { s with handles := Function.update s.handles h (some .device) }
  | created {host : Host} {args : CreateFile} {r : Request} {i : ℕ} {h : UInt32}
      (hr : request args = some r)
      (hname : s.names (resolve (pathDupUnx args.lpFileName)) = none)
      (hcreates : r.disposition.creates = true) (hnew : ∀ d, s.names d ≠ some (.file i))
      (hunused : ∀ h o, s.handles h = some (.file o) → o.inode ≠ i) (hown : 3 < h)
      (hfree : s.handles h = none) :
      Step s ⟨host, .createFileA args, .handle h⟩ { s with
        names := Function.update s.names (resolve (pathDupUnx args.lpFileName)) (some (.file i))
        bytes := Function.update s.bytes i []
        handles := Function.update s.handles h (some (.file ⟨i, 0, r.access⟩)) }
  | not_opened {host : Host} {args : CreateFile} {r : Request} (hr : request args = some r)
      (h : host.permits = false ∨ s.Full ∨
        (if (s.names (resolve (pathDupUnx args.lpFileName))).isSome then r.disposition.opens
          else r.disposition.creates) = false) :
      Step s ⟨host, .createFileA args, .handle 0⟩ s
  /-- A failure in the end, and the handle is closed all the same. -/
  | closed {host : Host} {h : UInt32} {object : Object} {res : Bool} (hown : 3 < h)
      (hopen : s.handles h = some object) (hres : res = host.permits) :
      Step s ⟨host, .closeHandle h, .bool res⟩
        { s with handles := Function.update s.handles h none }
  | not_open {host : Host} {h : UInt32} (hown : 3 < h) (hclosed : s.handles h = none) :
      Step s ⟨host, .closeHandle h, .bool false⟩ s
  | standard {host : Host} {h : UInt32} (hstd : h ≤ 3) : Step s ⟨host, .closeHandle h, .bool true⟩ s
  | edited {event : Event} {h : UInt32} {o : OpenFile} {e : Editor}
      (hcall : handleOf event.call = some h) (hopen : s.handles h = some (.file o))
      (hedit : Editor.Step ⟨s.bytes o.inode, o.pos, o.access⟩ event e) :
      Step s event (s.edit h o.inode e)
  | device {event : Event} {h : UInt32} (hcall : handleOf event.call = some h)
      (hopen : s.handles h = some .device) : Step s event s
  | nothing {event : Event} {h : UInt32} (hcall : handleOf event.call = some h)
      (hclosed : s.handles h = none) (hrefused : Refused event.call event.reply) : Step s event s
  | deleted {host : Host} {lpFileName : CString} {node : Node}
      (hname : s.names (resolve (pathDupUnx lpFileName)) = some node) :
      Step s ⟨host, .deleteFileA lpFileName, .bool true⟩
        { s with names := Function.update s.names (resolve (pathDupUnx lpFileName)) none }
  | not_deleted {host : Host} {lpFileName : CString}
      (h : host.permits = false ∨ s.names (resolve (pathDupUnx lpFileName)) = none) :
      Step s ⟨host, .deleteFileA lpFileName, .bool false⟩ s
  | duplicated {host : Host} {h : UInt32} (hstd : 1 ≤ h ∧ h ≤ 3) :
      Step s ⟨host, .duplicateHandle h, .handle h⟩ s
  | std_handle {host : Host} {n h : UInt32}
      (hstd : n = -10 ∧ h = 1 ∨ n = -11 ∧ h = 2 ∨ n = -12 ∧ h = 3 ∨
        n ∉ [-10, -11, -12] ∧ h = INVALID_HANDLE_VALUE) :
      Step s ⟨host, .getStdHandle n, .handle h⟩ s
  | directory {host : Host} {h : UInt32} (hown : 3 < h) (hfree : s.handles h = none) :
      Step s ⟨host, .opendir, .bool true⟩
        { s with handles := Function.update s.handles h (some .device) }
  | no_directory {host : Host} (h : host.permits = false ∨ s.Full) :
      Step s ⟨host, .opendir, .bool false⟩ s
  | directory_closed {host : Host} {fd : ℕ} {h : UInt32} {res : Bool} (hown : 3 < h)
      (hfd : h.toNat = fd + 1) (hopen : s.handles h = some .device) (hres : res = host.permits) :
      Step s ⟨host, .closedir fd, .bool res⟩
        { s with handles := Function.update s.handles h none }

inductive Run : Store δ → List Event → Store δ → Prop
  | nil (s : Store δ) : Run s [] s
  | cons {s s' s'' : Store δ} {event : Event} {events : List Event} (step : s.Step resolve event s')
      (rest : Run s' events s'') : Run s (event :: events) s''

/-- What a step does to names, bytes and handles, whatever the call. -/
inductive Effect (s : Store δ) (event : Event) : Store δ → Prop
  | same (hcall : ∀ h o, handleOf event.call = some h → s.handles h ≠ some (.file o)) :
      Effect s event s
  | handle {h : UInt32} {object : Option Object} (hcall : handleOf event.call = none)
      (hobject : ∀ o, object ≠ some (.file o))
      (hfile : ∀ o, s.handles h = some (.file o) → event.call = .closeHandle h) :
      Effect s event { s with handles := Function.update s.handles h object }
  | opened {args : CreateFile} {h : UInt32} {i : ℕ} (access : Access) (bytes : List UInt8)
      (hcall : event.call = .createFileA args)
      (hname : s.names (resolve (pathDupUnx args.lpFileName)) = some (.file i))
      (hfree : s.handles h = none) :
      Effect s event { s with
        bytes := Function.update s.bytes i bytes
        handles := Function.update s.handles h (some (.file ⟨i, 0, access⟩)) }
  | created {args : CreateFile} {h : UInt32} {i : ℕ} {access : Access}
      (hcall : event.call = .createFileA args) (hnew : ∀ d, s.names d ≠ some (.file i))
      (hunused : ∀ h o, s.handles h = some (.file o) → o.inode ≠ i) (hfree : s.handles h = none) :
      Effect s event { s with
        names := Function.update s.names (resolve (pathDupUnx args.lpFileName)) (some (.file i))
        bytes := Function.update s.bytes i []
        handles := Function.update s.handles h (some (.file ⟨i, 0, access⟩)) }
  | edited {h : UInt32} {o : OpenFile} {e : Editor} (hcall : handleOf event.call = some h)
      (hopen : s.handles h = some (.file o)) (hedit : (s.editor o).Step event e) :
      Effect s event (s.edit h o.inode e)
  | deleted {lpFileName : CString} (hcall : event.call = .deleteFileA lpFileName) :
      Effect s event
        { s with names := Function.update s.names (resolve (pathDupUnx lpFileName)) none }

variable {resolve}

lemma Step.effect {event : Event} (hstep : s.Step resolve event s') :
    s.Effect resolve event s' := by
  cases hstep with
  | @opened host args r i h hr hname hopens hown hfree =>
    have heffect : s.Effect resolve ⟨host, .createFileA args, .handle h⟩ _ :=
      .opened r.access (if r.disposition.empties then [] else s.bytes i) rfl hname hfree
    by_cases hempties : r.disposition.empties = true
    · simpa only [if_pos hempties] using heffect
    · simpa only [if_neg hempties, Function.update_eq_self] using heffect
  | created hr hname hcreates hnew hunused hown hfree => exact .created rfl hnew hunused hfree
  | not_opened | not_open | standard | not_deleted | duplicated | std_handle | no_directory =>
    exact .same fun h o hcall => by cases hcall
  | closed hown hopen hres => exact .handle rfl (fun o ho => by cases ho) fun o ho => rfl
  | edited hcall hopen hedit => exact .edited hcall hopen hedit
  | device hcall hopen =>
    refine .same fun h' o hcall' hfile => ?_
    rw [Option.some.inj (hcall'.symm.trans hcall), hopen] at hfile
    cases hfile
  | nothing hcall hclosed hrefused =>
    refine .same fun h' o hcall' hfile => ?_
    rw [Option.some.inj (hcall'.symm.trans hcall), hclosed] at hfile
    cases hfile
  | deleted hname => exact .deleted rfl
  | directory hown hfree | device_opened _ _ _ hown hfree =>
    refine .handle rfl (fun o ho => by cases ho) fun o ho => ?_
    rw [hfree] at ho
    cases ho
  | directory_closed hown hfd hopen hres =>
    refine .handle rfl (fun o ho => by cases ho) fun o ho => ?_
    rw [hopen] at ho
    cases ho

lemma Step.kept {event : Event} (hstep : s.Step resolve event s') (hs : s.Sole h o)
    (hspares : s.Spares resolve h o.inode event.call) : Kept s s' h o event := by
  have hheld : ∀ {h'}, s.handles h' = none → h' ≠ h := by
    rintro h' hfree rfl
    rw [hs.open_] at hfree
    cases hfree
  cases hstep.effect with
  | same hcall => exact .of_eq hs fun hc => hcall h o hc hs.open_
  | @handle h' object hcall hobject hfile =>
    have hne : h' ≠ h := by
      rintro rfl
      exact hspares.1 (hfile o hs.open_)
    exact ⟨fun _ hd => hd, o, hs.update hne object (fun o' ho' => absurd ho' (hobject o')) rfl, rfl,
      by rw [if_neg (by rw [hcall]; simp)]; rfl⟩
  | @opened args h' i _ _ hcall hname hfree =>
    have hi : i ≠ o.inode := by
      rintro rfl
      exact hspares.2 args hcall hname
    refine ⟨fun _ hd => hd, o, hs.update (hheld hfree) _ ?_ rfl, rfl, ?_⟩
    · intro o' ho'
      rw [← Object.file.inj (Option.some.inj ho')]
      exact hi
    · rw [if_neg (by simp [hcall, handleOf])]
      simp only [editor, Function.update_of_ne hi.symm]
  | @created args h' i access hcall hnew hunused hfree =>
    have hi : o.inode ≠ i := hunused h o hs.open_
    refine ⟨?_, o, hs.update (hheld hfree) _ ?_ rfl, rfl, ?_⟩
    · intro d hd
      by_cases hd' : d = resolve (pathDupUnx args.lpFileName)
      · rw [hd'] at hd
        simp only [Function.update_self, Option.some.injEq, Node.file.injEq] at hd
        exact absurd hd.symm hi
      · simpa only [Function.update_of_ne hd'] using hd
    · intro o' ho'
      rw [← Object.file.inj (Option.some.inj ho')]
      exact hi.symm
    · rw [if_neg (by simp [hcall, handleOf])]
      simp only [editor, Function.update_of_ne hi]
  | @edited h' o' e hcall hopen hedit =>
    by_cases hne : h' = h
    · subst hne
      obtain rfl : o = o' := Object.file.inj (Option.some.inj (hs.open_.symm.trans hopen))
      refine ⟨fun _ hd => hd, ⟨o.inode, e.pos, e.access⟩, ⟨?_, ?_⟩, rfl, ?_⟩
      · simp [edit]
      · intro h'' o'' hne' ho''
        simp only [edit, Function.update_of_ne hne'] at ho''
        exact hs.apart h'' o'' hne' ho''
      · rw [if_pos hcall]
        simpa [editor, edit] using hedit
    · have hi := hs.apart h' o' hne hopen
      refine ⟨fun _ hd => hd, o, hs.update hne _ ?_ rfl, rfl, ?_⟩
      · intro o'' ho''
        rw [← Object.file.inj (Option.some.inj ho'')]
        exact hi
      · rw [if_neg (by rw [hcall, Option.some.injEq]; exact hne)]
        simp only [editor, edit, Function.update_of_ne hi.symm]
  | @deleted lpFileName hcall =>
    refine ⟨?_, o, ⟨hs.open_, hs.apart⟩, rfl, by rw [if_neg (by simp [hcall, handleOf])]; rfl⟩
    intro d hd
    by_cases hd' : d = resolve (pathDupUnx lpFileName)
    · rw [hd'] at hd
      simp at hd
    · simpa only [Function.update_of_ne hd'] using hd

/-- Whatever goes on around a file behind a sole handle, its calls are those of an editor. -/
lemma Run.edited {events : List Event} (hrun : Run resolve s events s') (hs : s.Sole h o)
    (hspares : ∀ event ∈ events, s.Spares resolve h o.inode event.call) :
    (∀ d, s'.names d = some (.file o.inode) → s.names d = some (.file o.inode)) ∧
      ∃ o', s'.Sole h o' ∧ o'.inode = o.inode ∧
        (s.editor o).Run (events.filter fun event => handleOf event.call = some h)
          (s'.editor o') := by
  induction hrun generalizing o with
  | nil s => exact ⟨fun _ hd => hd, o, hs, rfl, .nil _⟩
  | @cons s s₁ s' event events step rest ih =>
    obtain ⟨hnames, o₁, hs₁, hinode, hedit⟩ := step.kept hs (hspares event List.mem_cons_self)
    obtain ⟨hnames', o', hs', hinode', hrun⟩ := ih hs₁ (by
      intro event' hmem
      obtain ⟨hclose, hopen⟩ := hspares event' (List.mem_cons_of_mem event hmem)
      refine ⟨hclose, fun args hargs hname => hopen args hargs ?_⟩
      rw [hinode] at hname
      exact hnames _ hname)
    rw [hinode] at hnames'
    refine ⟨fun d hd => hnames d (hnames' d hd), o', hs', hinode'.trans hinode, ?_⟩
    by_cases hcall : handleOf event.call = some h
    · rw [if_pos hcall] at hedit
      rw [List.filter_cons_of_pos (by simpa using hcall)]
      exact .cons hedit hrun
    · rw [if_neg hcall] at hedit
      rw [List.filter_cons_of_neg (by simpa using hcall), ← hedit]
      exact hrun

end Store

end Metroskrew.Dlls.FileStore
