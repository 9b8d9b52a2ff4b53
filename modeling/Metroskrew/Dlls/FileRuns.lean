import Metroskrew.Dlls.FileRefinement

/-! Whole runs of the file calls: what is written to a file and closed is what a later handle reads,
whatever else the program does in between. -/

namespace Metroskrew.Dlls.FileRuns

open Metroskrew.Library.Descriptors Metroskrew.Dlls.FileHandles Metroskrew.Dlls.FileStore
open Metroskrew.Dlls.FileRefinement

/-- The bytes that an event puts into the file behind `h`. -/
def writtenBy (h : UInt32) (event : Event) : List UInt8 :=
  match event.call, event.reply with
  | .writeFile hFile buf _, .written true count => if hFile = h then buf.take count else []
  | _, _ => []

/-- The bytes that an event takes out of the file behind `h`. -/
def readBy (h : UInt32) (event : Event) : List UInt8 :=
  match event.call, event.reply with
  | .readFile hFile _ _, .read true bytes => if hFile = h then bytes else []
  | _, _ => []

/-- A read that asks for something and gets nothing. -/
def AtEnd (h : UInt32) (event : Event) : Prop :=
  ∃ n, n ≠ 0 ∧ event.call = .readFile h n 0 ∧ event.reply = .read true []

lemma writtenBy_off {h : UInt32} {event : Event} (hcall : handleOf event.call ≠ some h) :
    writtenBy h event = [] := by
  unfold writtenBy
  split
  · next hwrite _ =>
    rw [hwrite] at hcall
    exact if_neg fun heq => hcall (congrArg some heq)
  · rfl

lemma readBy_off {h : UInt32} {event : Event} (hcall : handleOf event.call ≠ some h) :
    readBy h event = [] := by
  unfold readBy
  split
  · next hread _ =>
    rw [hread] at hcall
    exact if_neg fun heq => hcall (congrArg some heq)
  · rfl

section Editor

variable {e e' : Editor} {h : UInt32}

lemma overwrite_end (bytes chunk : List UInt8) : overwrite bytes bytes.length chunk = bytes ++ chunk := by
  unfold overwrite
  split_ifs with hnil
  · rw [hnil, List.append_nil]
  · rw [List.take_length, Nat.sub_self, List.replicate_zero, List.append_nil,
      List.drop_of_length_le (by omega), List.append_nil]

lemma flatMap_on {events : List Event} {f : Event → List UInt8}
    (hf : ∀ event, handleOf event.call ≠ some h → f event = []) :
    (events.filter fun event => handleOf event.call = some h).flatMap f = events.flatMap f := by
  induction events with
  | nil => rfl
  | cons event events ih =>
    by_cases hcall : handleOf event.call = some h
    · rw [List.filter_cons_of_pos (by simpa using hcall), List.flatMap_cons, List.flatMap_cons, ih]
    · rw [List.filter_cons_of_neg (by simpa using hcall), List.flatMap_cons, ih, hf event hcall,
        List.nil_append]

/-- Nothing but writes, from the end on: the file grows by what they say they wrote. -/
lemma run_written {events : List Event} (hrun : e.Run events e')
    (hcalls : ∀ event ∈ events, ∃ buf overlapped, event.call = .writeFile h buf overlapped)
    (hend : e.pos = e.bytes.length) :
    e'.bytes = e.bytes ++ events.flatMap (writtenBy h) ∧ e'.pos = e'.bytes.length := by
  induction hrun with
  | nil e => simpa using hend
  | @cons e e₁ e' event events step rest ih =>
    obtain ⟨buf, overlapped, hcall⟩ := hcalls event List.mem_cons_self
    have htail := fun hend₁ =>
      ih (fun event' hmem => hcalls event' (List.mem_cons_of_mem event hmem)) hend₁
    cases step with
    | @written host hFile buf' count hwrites hcount =>
      cases hcall
      have hbytes : overwrite e.bytes e.pos (buf.take count) = e.bytes ++ buf.take count := by
        rw [hend, overwrite_end]
      obtain ⟨hih, hpos⟩ := htail (by
        change e.pos + count = (overwrite e.bytes e.pos (buf.take count)).length
        rw [hbytes, List.length_append, List.length_take, hend]
        omega)
      refine ⟨?_, hpos⟩
      rw [hih, hbytes, List.flatMap_cons, List.append_assoc]
      simp [writtenBy]
    | not_written hfail =>
      cases hcall
      obtain ⟨hih, hpos⟩ := htail hend
      refine ⟨?_, hpos⟩
      rw [hih, List.flatMap_cons]
      simp [writtenBy]
    | _ => cases hcall

/-- Nothing but reads: they give what follows the position, up to the end once one gives nothing. -/
lemma run_read {events : List Event} (hrun : e.Run events e')
    (hcalls : ∀ event ∈ events, ∃ n overlapped, event.call = .readFile h n overlapped) :
    e'.bytes = e.bytes ∧ events.flatMap (readBy h) ++ e.bytes.drop e'.pos = e.bytes.drop e.pos ∧
      ((∃ event ∈ events, AtEnd h event) → e.bytes.length ≤ e'.pos) := by
  induction hrun with
  | nil e => simp
  | @cons e e₁ e' event events step rest ih =>
    obtain ⟨n, overlapped, hcall⟩ := hcalls event List.mem_cons_self
    obtain ⟨hbytes, hread, hatend⟩ :=
      ih fun event' hmem => hcalls event' (List.mem_cons_of_mem event hmem)
    cases step with
    | @read host hFile n' bytes hreads hprefix hend =>
      cases hcall
      obtain ⟨rest', hrest⟩ := hprefix.trans (List.take_prefix _ _)
      have hdrop : e.bytes.drop (e.pos + bytes.length) = rest' := by
        rw [← List.drop_drop, ← hrest, List.drop_left]
      have hchunk : readBy h ⟨host, .readFile h n 0, .read true bytes⟩ = bytes := by simp [readBy]
      have hall : bytes ++ (events.flatMap (readBy h) ++ e.bytes.drop e'.pos) =
          e.bytes.drop e.pos := by
        rw [hread, hdrop, hrest]
      refine ⟨hbytes, ?_, ?_⟩
      · rw [List.flatMap_cons, hchunk, List.append_assoc, hall]
      · rintro ⟨event, hmem, hat⟩
        rcases List.mem_cons.mp hmem with rfl | hmem
        · obtain ⟨n', hn, hcall, hreply⟩ := hat
          cases hcall
          cases hreply
          have hover := (hend rfl).resolve_left hn
          rw [List.drop_of_length_le hover, List.nil_append, List.append_eq_nil_iff] at hall
          exact List.drop_eq_nil_iff.mp hall.2
        · exact hatend ⟨event, hmem, hat⟩
    | not_read hfail =>
      cases hcall
      refine ⟨hbytes, ?_, ?_⟩
      · rw [List.flatMap_cons, ← hread]
        simp [readBy]
      · rintro ⟨event, hmem, hat⟩
        rcases List.mem_cons.mp hmem with rfl | hmem
        · obtain ⟨n', hn, hcall, hreply⟩ := hat
          cases hreply
        · exact hatend ⟨event, hmem, hat⟩
    | _ => cases hcall

end Editor

section Store

variable {δ : Type*} {resolve : CString → δ} {s s' : Store δ} {d : δ} {i : ℕ}

/-- File `i` has the one name `d`. -/
structure Named (s : Store δ) (d : δ) (i : ℕ) : Prop where
  name : s.names d = some (.file i)
  only : ∀ d', s.names d' = some (.file i) → d' = d

/-- The call neither opens nor deletes `d`. -/
def Leaves (resolve : CString → δ) (d : δ) : Call → Prop
  | .createFileA args => resolve (pathDupUnx args.lpFileName) ≠ d
  | .deleteFileA lpFileName => resolve (pathDupUnx lpFileName) ≠ d
  | _ => True

/-- No handle is on file `i`. -/
def Idle (s : Store δ) (i : ℕ) : Prop := ∀ h o, s.handles h = some (.file o) → o.inode ≠ i

/-- A handle just made is alone on a file that no other handle was on. -/
lemma sole_of_fresh {h : UInt32} {o : OpenFile} (hidle : Idle s o.inode)
    (hhandles : s'.handles = Function.update s.handles h (some (.file o))) : s'.Sole h o := by
  constructor
  · rw [hhandles, Function.update_self]
  · intro h' o' hne ho'
    rw [hhandles, Function.update_of_ne hne] at ho'
    exact hidle h' o' ho'

/-- Calls that leave a name alone do not open the file behind it. -/
lemma Named.spares {h : UInt32} {c : Call} (hn : Named s d i) (hclose : c ≠ .closeHandle h)
    (hleaves : Leaves resolve d c) : s.Spares resolve h i c := by
  refine ⟨hclose, ?_⟩
  rintro args rfl hname
  exact hleaves (hn.only _ hname)

variable [DecidableEq δ]

lemma run_split {xs ys : List Event} (h : s.Run resolve (xs ++ ys) s') :
    ∃ m, s.Run resolve xs m ∧ m.Run resolve ys s' := by
  induction xs generalizing s with
  | nil => exact ⟨s, .nil s, h⟩
  | cons event xs ih =>
    cases h with
    | cons step rest =>
      obtain ⟨m, hxs, hys⟩ := ih rest
      exact ⟨m, .cons step hxs, hys⟩

lemma Named.step {event : Event} (hn : Named s d i) (hstep : s.Step resolve event s')
    (hleaves : Leaves resolve d event.call) : Named s' d i := by
  cases hstep.effect with
  | same => exact hn
  | handle => exact ⟨hn.name, hn.only⟩
  | opened => exact ⟨hn.name, hn.only⟩
  | edited => exact ⟨hn.name, hn.only⟩
  | @created args h i' access hcall hnew hunused hfree =>
    rw [hcall] at hleaves
    refine ⟨by simpa only [Function.update_of_ne (Ne.symm hleaves)] using hn.name, fun d' hd' => ?_⟩
    by_cases hnew' : d' = resolve (pathDupUnx args.lpFileName)
    · rw [hnew'] at hd'
      simp only [Function.update_self, Option.some.injEq, Node.file.injEq] at hd'
      exact absurd (hd' ▸ hn.name) (hnew d)
    · exact hn.only d' (by simpa only [Function.update_of_ne hnew'] using hd')
  | @deleted lpFileName hcall =>
    rw [hcall] at hleaves
    refine ⟨by simpa only [Function.update_of_ne (Ne.symm hleaves)] using hn.name, fun d' hd' => ?_⟩
    by_cases hgone : d' = resolve (pathDupUnx lpFileName)
    · rw [hgone] at hd'
      simp at hd'
    · exact hn.only d' (by simpa only [Function.update_of_ne hgone] using hd')

lemma Named.run {events : List Event} (hn : Named s d i) (hrun : s.Run resolve events s')
    (hleaves : ∀ event ∈ events, Leaves resolve d event.call) : Named s' d i := by
  induction hrun with
  | nil => exact hn
  | @cons _ _ _ event _ step rest ih =>
    exact ih (hn.step step (hleaves event List.mem_cons_self))
      fun event' hmem => hleaves event' (List.mem_cons_of_mem event hmem)

lemma Idle.step {event : Event} (hidle : Idle s i) (hn : Named s d i)
    (hstep : s.Step resolve event s') (hleaves : Leaves resolve d event.call) :
    Idle s' i ∧ s'.bytes i = s.bytes i := by
  have hupdate : ∀ {h' : UInt32} {object : Option Object} {handles : UInt32 → Option Object},
      (∀ o, object = some (.file o) → o.inode ≠ i) → handles = Function.update s.handles h' object →
      ∀ h o, handles h = some (.file o) → o.inode ≠ i := by
    rintro h' object _ hobject rfl h o ho
    by_cases heq : h = h'
    · rw [heq, Function.update_self] at ho
      exact hobject o ho
    · rw [Function.update_of_ne heq] at ho
      exact hidle h o ho
  cases hstep.effect with
  | same => exact ⟨hidle, rfl⟩
  | handle hcall hobject hfile =>
    exact ⟨hupdate (fun o ho => absurd ho (hobject o)) rfl, rfl⟩
  | @opened args h i' _ _ hcall hname hfree =>
    have hi : i' ≠ i := by
      rintro rfl
      rw [hcall] at hleaves
      exact hleaves (hn.only _ hname)
    refine ⟨hupdate (fun o ho => ?_) rfl, Function.update_of_ne hi.symm _ _⟩
    rw [← Object.file.inj (Option.some.inj ho)]
    exact hi
  | @created args h i' access hcall hnew hunused hfree =>
    have hi : i' ≠ i := by
      rintro rfl
      exact hnew d hn.name
    refine ⟨hupdate (fun o ho => ?_) rfl, Function.update_of_ne hi.symm _ _⟩
    rw [← Object.file.inj (Option.some.inj ho)]
    exact hi
  | @edited h o e hcall hopen hedit =>
    have hi := hidle h o hopen
    refine ⟨hupdate (fun o' ho => ?_) rfl, Function.update_of_ne hi.symm _ _⟩
    rw [← Object.file.inj (Option.some.inj ho)]
    exact hi
  | deleted => exact ⟨hidle, rfl⟩

lemma Idle.run {events : List Event} (hidle : Idle s i) (hn : Named s d i)
    (hrun : s.Run resolve events s') (hleaves : ∀ event ∈ events, Leaves resolve d event.call) :
    Idle s' i ∧ s'.bytes i = s.bytes i := by
  induction hrun with
  | nil => exact ⟨hidle, rfl⟩
  | @cons _ _ _ event _ step rest ih =>
    have hleave := hleaves event List.mem_cons_self
    obtain ⟨hidle₁, hbytes₁⟩ := hidle.step hn step hleave
    obtain ⟨hidle', hbytes'⟩ := ih hidle₁ (hn.step step hleave)
      fun event' hmem => hleaves event' (List.mem_cons_of_mem event hmem)
    exact ⟨hidle', hbytes'.trans hbytes₁⟩

/-- Opening a file that is new, or emptied: nothing is in it. -/
lemma opened_empty {host : Host} {args : CreateFile} {r : Request} {h : UInt32}
    (hstep : s.Step resolve ⟨host, .createFileA args, .handle h⟩ s') (hr : request args = some r)
    (hempty : r.disposition.empties = true ∨ r.disposition.opens = false) (hh : h ≠ 0)
    (hd : resolve (pathDupUnx args.lpFileName) = d)
    (hfile : s.names d ≠ some .device)
    (hunshared : ∀ i, s.names d = some (.file i) →
      Idle s i ∧ ∀ d', s.names d' = some (.file i) → d' = d) :
    3 < h ∧ ∃ i, Named s' d i ∧ s'.bytes i = [] ∧ s'.Sole h ⟨i, 0, r.access⟩ := by
  cases hstep with
  | @opened _ _ r₀ i _ hr₀ hname hopens hown hfree =>
    obtain rfl : r = r₀ := Option.some.inj (hr.symm.trans hr₀)
    have hempties : r.disposition.empties = true := by
      rcases hempty with hempties | hnot
      · exact hempties
      · rw [hopens] at hnot
        cases hnot
    rw [hd] at hname
    obtain ⟨hidle, honly⟩ := hunshared i hname
    exact ⟨hown, i, ⟨hname, honly⟩, by simp [hempties], sole_of_fresh hidle rfl⟩
  | @created _ _ r₀ i _ hr₀ hname hcreates hnew hunused hown hfree =>
    obtain rfl : r = r₀ := Option.some.inj (hr.symm.trans hr₀)
    subst hd
    refine ⟨hown, i, ⟨by simp, fun d' hd' => ?_⟩, by simp, sole_of_fresh hunused rfl⟩
    by_contra hne
    simp only [Function.update_of_ne hne] at hd'
    exact hnew d' hd'
  | device_opened _ hname => exact absurd (hd ▸ hname) hfile
  | not_opened => exact absurd rfl hh
  | edited hcall | device hcall | nothing hcall => cases hcall

/-- Opening a file that is there, and keeps what it has. -/
lemma opened_kept {host : Host} {args : CreateFile} {r : Request} {h : UInt32}
    (hstep : s.Step resolve ⟨host, .createFileA args, .handle h⟩ s') (hr : request args = some r)
    (hkeeps : r.disposition.empties = false) (hh : h ≠ 0)
    (hd : resolve (pathDupUnx args.lpFileName) = d) (hn : Named s d i) (hidle : Idle s i) :
    Named s' d i ∧ s'.bytes i = s.bytes i ∧ s'.Sole h ⟨i, 0, r.access⟩ := by
  cases hstep with
  | @opened _ _ r₀ i₀ _ hr₀ hname hopens hown hfree =>
    obtain rfl : r = r₀ := Option.some.inj (hr.symm.trans hr₀)
    rw [hd, hn.name] at hname
    obtain rfl : i = i₀ := Node.file.inj (Option.some.inj hname)
    exact ⟨⟨hn.name, hn.only⟩, by simp [hkeeps], sole_of_fresh hidle rfl⟩
  | created hr₀ hname | device_opened hr₀ hname =>
    rw [hd, hn.name] at hname
    cases hname
  | not_opened => exact absurd rfl hh
  | edited hcall | device hcall | nothing hcall => cases hcall

end Store

section Main

variable {δ : Type*} [DecidableEq δ]

/-- The calls on a handle that is alone on its file are those of an editor on that file, whatever
other calls come between them. -/
theorem handle_alone (resolve : CString → δ) (sys sys' : System δ) (events : List Event)
    (hs : Started sys) (hcalls : Calls resolve sys events sys') (h : UInt32) (o : OpenFile)
    (hopen : sys.fds.get (fileno h) = some (.file o))
    (hsole : ∀ fd o', fd ≠ fileno h → sys.fds.get fd = some (.file o') → o'.inode ≠ o.inode)
    (hclose : ∀ event ∈ events, event.call ≠ .closeHandle h)
    (hnames : ∀ event ∈ events, ∀ args, event.call = .createFileA args →
      sys.entry (resolve (pathDupUnx args.lpFileName)) ≠ some (.file o.inode)) :
    ∃ o', sys'.fds.get (fileno h) = some (.file o') ∧ o'.inode = o.inode ∧
      Editor.Run ⟨sys.data o.inode, o.pos, o.access⟩
        (events.filter fun event => handleOf event.call = some h)
        ⟨sys'.data o.inode, o'.pos, o'.access⟩ := by
  have hview : (view sys).Sole h o :=
    ⟨hopen, fun h' o' hne ho' => hsole (fileno h') o' (fun heq => hne (fileno_inj heq)) ho'⟩
  obtain ⟨-, o', hsole', hinode, hrun⟩ := (calls_simulated hs hcalls).2.edited hview
    fun event hmem => ⟨hclose event hmem, hnames event hmem⟩
  refine ⟨o', hsole'.open_, hinode, ?_⟩
  rw [← hinode]
  rw [Store.editor, Store.editor, ← hinode] at hrun
  exact hrun

/-- `a.o` behind descriptor 3. -/
def openedSystem : System CString :=
  ((freshSystem 0x400).link objectFile).holdFile 3 ⟨0, 0, .rdwr⟩ (by decide)

def editing : List Event :=
  [⟨willing, .writeFile 4 (ascii "ELF") 0, .written true 3⟩,
    ⟨willing, .createFileA (createAlways depFile), .handle 5⟩,
    ⟨willing, .createFileA (openExisting nullDevice), .handle 6⟩,
    ⟨willing, .setFilePointer 4 (-2) 0 1, .number 1⟩,
    ⟨willing, .deleteFileA objectFile, .bool true⟩,
    ⟨willing, .readFile 4 8 0, .read true (ascii "LF")⟩,
    ⟨⟨true, 0, [], some 2⟩, .setFilePointer 4 1 0 3, .number 2⟩]

theorem handle_alone_editing : ∃ sys' o', Calls id openedSystem editing sys' ∧
    sys'.fds.get 3 = some (.file o') ∧
    Editor.Run ⟨[], 0, .rdwr⟩
      [⟨willing, .writeFile 4 (ascii "ELF") 0, .written true 3⟩,
        ⟨willing, .setFilePointer 4 (-2) 0 1, .number 1⟩,
        ⟨willing, .readFile 4 8 0, .read true (ascii "LF")⟩,
        ⟨⟨true, 0, [], some 2⟩, .setFilePointer 4 1 0 3, .number 2⟩]
      ⟨sys'.data 0, o'.pos, o'.access⟩ := by
  obtain ⟨sys', hsys'⟩ := Option.isSome_iff_exists.mp
    (show (replay id openedSystem editing).isSome = true by decide +kernel)
  have hlinked : Started ((freshSystem 0x400).link objectFile) := freshSystem_started.of_fds rfl
  have hstarted : Started openedSystem := hlinked.hold 3 (.file ⟨0, 0, .rdwr⟩) (by simp; decide)
  obtain ⟨o', hopen, -, hrun⟩ := handle_alone id openedSystem sys' editing hstarted
    (replay_calls hsys') 4 ⟨0, 0, .rdwr⟩ (by decide +kernel)
    (by
      intro fd o' hne ho'
      rcases Slots.get_put ho' with ⟨hfd, -⟩ | ho'
      · exact absurd hfd hne
      · change (if _ then _ else _) = _ at ho'
        split_ifs at ho'
        cases ho')
    (by simp [editing])
    (by
      simp only [editing, List.forall_mem_cons, List.not_mem_nil, reduceCtorEq, Call.createFileA.injEq,
        false_imp_iff, implies_true, and_true, true_and, forall_eq']
      decide +kernel)
  exact ⟨sys', o', replay_calls hsys', hopen, hrun⟩

/-- What is written to a new or emptied file until its handle is closed is what a later handle on
the file reads from its beginning, all of it once a read finds the end. -/
theorem written_read_back (resolve : CString → δ) (sys sys' : System δ) (host host₁ host₂ : Host)
    (args args' : CreateFile) (r r' : Request) (h h' : UInt32) (before between after : List Event)
    (d : δ) (hs : Started sys)
    (hcalls : Calls resolve sys
      (⟨host, .createFileA args, .handle h⟩ :: before ++
        ⟨host₁, .closeHandle h, .bool true⟩ :: between ++
        ⟨host₂, .createFileA args', .handle h'⟩ :: after) sys')
    (hr : request args = some r)
    (hempty : r.disposition.empties = true ∨ r.disposition.opens = false)
    (hr' : request args' = some r') (hkeeps : r'.disposition.empties = false)
    (hh : h ≠ 0) (hh' : h' ≠ 0) (hd : resolve (pathDupUnx args.lpFileName) = d)
    (hd' : resolve (pathDupUnx args'.lpFileName) = d)
    (hfile : sys.entry d ≠ some .device)
    (hunshared : ∀ i, sys.entry d = some (.file i) →
      (∀ fd o, sys.fds.get fd = some (.file o) → o.inode ≠ i) ∧
        ∀ d', sys.entry d' = some (.file i) → d' = d)
    (hbefore : ∀ event ∈ before, event.call ≠ .closeHandle h ∧ Leaves resolve d event.call ∧
      (handleOf event.call = some h → ∃ buf overlapped, event.call = .writeFile h buf overlapped))
    (hbetween : ∀ event ∈ between, Leaves resolve d event.call)
    (hafter : ∀ event ∈ after, event.call ≠ .closeHandle h' ∧ Leaves resolve d event.call ∧
      (handleOf event.call = some h' → ∃ n overlapped, event.call = .readFile h' n overlapped)) :
    after.flatMap (readBy h') <+: before.flatMap (writtenBy h) ∧
      ((∃ event ∈ after, AtEnd h' event) →
        after.flatMap (readBy h') = before.flatMap (writtenBy h)) := by
  obtain ⟨s₄, hrun, hlast⟩ := run_split (calls_simulated hs hcalls).2
  obtain ⟨s₂, hfirst, hmiddle⟩ := run_split hrun
  cases hfirst with | @cons _ s₁ _ _ _ hopened hwriting =>
  cases hmiddle with | @cons _ s₃ _ _ _ hclosed hrest =>
  cases hlast with | @cons _ s₅ _ _ _ hreopened hreading =>
  -- the file is new or emptied, and `h` is alone on it
  obtain ⟨hown, i, hnamed₁, hbytes₁, hsole₁⟩ := opened_empty hopened hr hempty hh hd
    hfile fun i hi => ⟨fun h o ho => (hunshared i hi).1 (fileno h) o ho, (hunshared i hi).2⟩
  have hnamed₂ := hnamed₁.run hwriting fun event hmem => (hbefore event hmem).2.1
  obtain ⟨-, o₂, hsole₂, hinode₂, hwritten⟩ := hwriting.edited hsole₁ fun event hmem =>
    hnamed₁.spares (hbefore event hmem).1 (hbefore event hmem).2.1
  have hcontent : s₂.bytes i = before.flatMap (writtenBy h) := by
    have hwrite := (run_written hwritten (h := h) (fun event hmem => by
      obtain ⟨hmem, hcall⟩ := List.mem_filter.mp hmem
      exact (hbefore event hmem).2.2 (by simpa using hcall)) (by simp [Store.editor, hbytes₁])).1
    rw [flatMap_on fun event => writtenBy_off] at hwrite
    simpa [Store.editor, hbytes₁, hinode₂] using hwrite
  -- once `h` is closed no handle is on it, and it keeps its bytes
  have hclosed₃ : Idle s₃ i ∧ s₃.bytes i = s₂.bytes i ∧ Named s₃ d i := by
    cases hclosed with
    | @closed _ _ object _ hown hopen =>
      refine ⟨fun h₁ o₁ ho₁ => ?_, rfl, ⟨hnamed₂.name, hnamed₂.only⟩⟩
      by_cases heq : h₁ = h
      · rw [heq] at ho₁
        simp at ho₁
      · simp only [Function.update_of_ne heq] at ho₁
        have hne := hsole₂.apart h₁ o₁ heq ho₁
        rwa [hinode₂] at hne
    | standard hstd => exact absurd hown (UInt32.not_lt.mpr hstd)
    | edited hcall | device hcall | nothing hcall => cases hcall
  obtain ⟨hidle₃, hbytes₃, hnamed₃⟩ := hclosed₃
  obtain ⟨hidle₄, hbytes₄⟩ := hidle₃.run hnamed₃ hrest hbetween
  have hnamed₄ := hnamed₃.run hrest hbetween
  -- `h'` starts at its beginning
  obtain ⟨hnamed₅, hbytes₅, hsole₅⟩ := opened_kept hreopened hr' hkeeps hh' hd' hnamed₄ hidle₄
  obtain ⟨-, o', hsole', hinode', hedited⟩ := hreading.edited hsole₅ fun event hmem =>
    hnamed₅.spares (hafter event hmem).1 (hafter event hmem).2.1
  obtain ⟨-, hread, hatend⟩ := run_read hedited (h := h') fun event hmem => by
    obtain ⟨hmem, hcall⟩ := List.mem_filter.mp hmem
    exact (hafter event hmem).2.2 (by simpa using hcall)
  have hall : s₅.bytes i = before.flatMap (writtenBy h) := by
    rw [hbytes₅, hbytes₄, hbytes₃, hcontent]
  rw [flatMap_on fun event => readBy_off] at hread
  simp only [Store.editor, List.drop_zero, hall] at hread hatend
  constructor
  · exact ⟨_, hread⟩
  · rintro ⟨event, hmem, hat⟩
    have hover := hatend ⟨event, List.mem_filter.mpr ⟨hmem, by
      obtain ⟨n, -, hcall, -⟩ := hat
      simp [hcall, handleOf]⟩, hat⟩
    rwa [List.drop_of_length_le hover, List.append_nil] at hread

/-- Two files written in turn. -/
def writing : List Event :=
  [⟨willing, .writeFile 4 (ascii "ELF") 0, .written true 3⟩,
    ⟨willing, .createFileA (createAlways depFile), .handle 5⟩,
    ⟨willing, .writeFile 5 (ascii "a.o:") 0, .written true 4⟩,
    ⟨willing, .writeFile 4 (ascii "!") 0, .written true 1⟩]

def reading : List Event :=
  [⟨willing, .readFile 4 3 0, .read true (ascii "ELF")⟩,
    ⟨willing, .closeHandle 5, .bool true⟩,
    ⟨willing, .readFile 4 8 0, .read true (ascii "!")⟩,
    ⟨willing, .readFile 4 8 0, .read true []⟩]

def wholeRun : List Event :=
  ⟨willing, .createFileA (createAlways objectFile), .handle 4⟩ :: writing ++
    ⟨willing, .closeHandle 4, .bool true⟩ :: [⟨willing, .opendir, .bool true⟩,
      ⟨willing, .closedir 3, .bool true⟩] ++
    ⟨willing, .createFileA (openExisting objectFile), .handle 4⟩ :: reading

theorem written_read_back_interleaved : ∃ sys', Calls id (freshSystem 0x400) wholeRun sys' ∧
    reading.flatMap (readBy 4) = ascii "ELF!" ∧
    reading.flatMap (readBy 4) = writing.flatMap (writtenBy 4) := by
  obtain ⟨sys', hsys'⟩ := Option.isSome_iff_exists.mp
    (show (replay id (freshSystem 0x400) wholeRun).isSome = true by decide +kernel)
  refine ⟨sys', replay_calls hsys', by decide +kernel, ?_⟩
  refine (written_read_back id (freshSystem 0x400) sys' willing willing willing
    (createAlways objectFile) (openExisting objectFile) ⟨.createAlways, .wronly⟩
    ⟨.openExisting, .rdonly⟩ 4 4 writing _ reading objectFile freshSystem_started
    (replay_calls hsys') (by decide +kernel) (.inl rfl) (by decide +kernel) rfl (by decide)
    (by decide) (by decide +kernel) (by decide +kernel) (fun hd => by cases hd) (fun i hi => by cases hi)
    ?_ ?_ ?_).2 ?_
  · simp only [writing, List.forall_mem_cons]
    exact ⟨⟨by simp, trivial, fun _ => ⟨_, _, rfl⟩⟩,
      ⟨by simp, by simp only [Leaves]; decide +kernel, by simp [handleOf]⟩,
      ⟨by simp, trivial, by simp [handleOf]⟩, ⟨by simp, trivial, fun _ => ⟨_, _, rfl⟩⟩,
      fun _ hmem => absurd hmem List.not_mem_nil⟩
  · simp only [List.forall_mem_cons]
    exact ⟨trivial, trivial, fun _ hmem => absurd hmem List.not_mem_nil⟩
  · simp only [reading, List.forall_mem_cons]
    exact ⟨⟨by simp, trivial, fun _ => ⟨_, _, rfl⟩⟩, ⟨by simp, trivial, by simp [handleOf]⟩,
      ⟨by simp, trivial, fun _ => ⟨_, _, rfl⟩⟩, ⟨by simp, trivial, fun _ => ⟨_, _, rfl⟩⟩,
      fun _ hmem => absurd hmem List.not_mem_nil⟩
  · exact ⟨_, List.mem_of_getLast? rfl, 8, by decide, rfl, rfl⟩

end Main

end Metroskrew.Dlls.FileRuns
