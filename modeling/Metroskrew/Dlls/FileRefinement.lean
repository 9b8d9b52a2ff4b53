import Metroskrew.Dlls.FileStore

/-! The file calls of kernel32 keep their promises: whatever the program calls, it sees a store of
named files. -/

namespace Metroskrew.Dlls.FileRefinement

open Metroskrew.Library.Descriptors Metroskrew.Dlls.FileHandles Metroskrew.Dlls.FileStore

variable {δ : Type*}

/-- What the program sees of the system. -/
def view (sys : System δ) : Store δ where
  names := sys.entry
  bytes := sys.data
  handles h := sys.fds.get (fileno h)
  limit := sys.fds.limit

/-- Descriptors are ints, and the first three are open. -/
structure Started (sys : System δ) : Prop where
  limit : sys.fds.limit ≤ 2 ^ 31
  std : ∀ fd < 3, sys.fds.get fd ≠ none

lemma fileno_handle {fd : ℕ} (h : fd < 2 ^ 31) : fileno (fd + 1).toUInt32 = fd := by
  have hle : (1 : UInt32) ≤ (fd + 1).toUInt32 := by
    rw [UInt32.le_iff_toNat_le, Nat.toUInt32, UInt32.toNat_ofNat_of_lt' (by simp [UInt32.size]; omega)]
    simp
  rw [fileno, UInt32.toNat_sub_of_le _ _ hle, Nat.toUInt32,
    UInt32.toNat_ofNat_of_lt' (by simp [UInt32.size]; omega)]
  simp

lemma fileno_inj {h h' : UInt32} (heq : fileno h = fileno h') : h = h' := by
  have := UInt32.toNat_inj.mp heq
  simpa using this

lemma fileno_own {h : UInt32} (hown : 3 < h) : fileno h = h.toNat - 1 ∧ 3 ≤ fileno h := by
  have hlt : 3 < h.toNat := UInt32.lt_iff_toNat_lt.mp hown
  have hle : (1 : UInt32) ≤ h := by
    rw [UInt32.le_iff_toNat_le]
    simp
    omega
  have : fileno h = h.toNat - 1 := by
    rw [fileno, UInt32.toNat_sub_of_le _ _ hle]
    rfl
  omega

lemma handles_update (get : ℕ → Option Object) (h₀ : UInt32) (object : Option Object) :
    (fun h => Function.update get (fileno h₀) object (fileno h)) =
      Function.update (fun h => get (fileno h)) h₀ object := by
  funext h
  by_cases heq : h = h₀
  · rw [heq, Function.update_self, Function.update_self]
  · rw [Function.update_of_ne heq, Function.update_of_ne fun hf => heq (fileno_inj hf)]

variable {sys : System δ}

lemma Started.hold (hs : Started sys) (fd : ℕ) (object : Object)
    (h : ∀ o, object = .file o → o.inode < sys.next) : Started (sys.hold fd object h) := by
  refine ⟨hs.limit, fun n hn hnone => hs.std n hn ?_⟩
  by_cases hlt : fd < sys.fds.limit
  · change (sys.fds.put fd object).get n = none at hnone
    rw [Slots.put_get hlt] at hnone
    by_cases hnfd : n = fd
    · rw [hnfd, Function.update_self] at hnone
      cases hnone
    · rwa [Function.update_of_ne hnfd] at hnone
  · change (sys.fds.put fd object).get n = none at hnone
    simpa only [Slots.put, if_neg hlt] using hnone

lemma Started.of_fds {sys' : System δ} (hs : Started sys) (h : sys'.fds = sys.fds) : Started sys' :=
  ⟨h ▸ hs.limit, h ▸ hs.std⟩

/-- A descriptor that is free is no standard one, and its handle is one of the program's own. -/
lemma Started.free (hs : Started sys) {fd : ℕ} (hlowest : sys.fds.lowest = some fd) :
    fd < sys.fds.limit ∧ 3 < (fd + 1).toUInt32 ∧ fileno (fd + 1).toUInt32 = fd ∧
      (view sys).handles (fd + 1).toUInt32 = none := by
  obtain ⟨hlt, hnone⟩ := Slots.lowest_some hlowest
  have hlimit := hs.limit
  have hfd : 3 ≤ fd := by
    by_contra hlow
    exact hs.std fd (by omega) hnone
  have hno : fileno (fd + 1).toUInt32 = fd := fileno_handle (by omega)
  refine ⟨hlt, ?_, hno, by simp only [view, hno, hnone]⟩
  rw [UInt32.lt_iff_toNat_lt, Nat.toUInt32, UInt32.toNat_ofNat_of_lt' (by simp [UInt32.size]; omega)]
  simp
  omega

lemma view_hold {h₀ : UInt32} {object : Object} (hlt : fileno h₀ < sys.fds.limit)
    (h : ∀ o, object = .file o → o.inode < sys.next) :
    view (sys.hold (fileno h₀) object h) =
      { view sys with handles := Function.update (view sys).handles h₀ (some object) } := by
  simp only [view, System.hold, Slots.put_get hlt, handles_update, Slots.put_limit]

lemma full_of_lowest (hlowest : sys.fds.lowest = none) : (view sys).Full := by
  intro h hown hle
  obtain ⟨hno, hlow⟩ := fileno_own hown
  exact Slots.lowest_none hlowest (show fileno h < sys.fds.limit by change _ ≤ sys.fds.limit at hle; omega)

lemma request_flags {args : CreateFile} {flags : Flags} (h : openFlags args = some flags) :
    ∃ r, request args = some r ∧ flags.access = r.access ∧
      (flags.creat && flags.excl) = !r.disposition.opens ∧ flags.creat = r.disposition.creates ∧
      flags.trunc = r.disposition.empties := by
  simp only [openFlags, Option.bind_eq_bind, Option.bind_eq_some_iff, Option.guard_eq_some',
    Option.some.injEq, exists_const, not_or] at h
  obtain ⟨hsecurity, hattributes, htemplate, ⟨hne, hle⟩, ⟨creat, excl, trunc⟩, htable, access,
    haccess, rfl⟩ := h
  have hpos : (1 : UInt32) ≤ args.dwCreationDisposition := by
    rw [UInt32.le_iff_toNat_le]
    exact Nat.pos_of_ne_zero fun h0 => hne (UInt32.toNat.inj h0)
  rw [UInt32.toNat_sub_of_le _ _ hpos] at htable
  have hrequest : ∀ disposition,
      Disposition.ofNumber args.dwCreationDisposition.toNat = some disposition →
      request args = some ⟨disposition, access⟩ := by
    intro disposition hd
    simp [request, hsecurity, hattributes, htemplate, hd, haccess]
  have hsome : dispositionFlags[args.dwCreationDisposition.toNat - 1]? = some (creat, excl, trunc) :=
    htable
  have hlt : args.dwCreationDisposition.toNat - 1 < 5 := by
    obtain ⟨hlt, _⟩ := List.getElem?_eq_some_iff.mp hsome
    exact hlt
  have hone : 1 ≤ args.dwCreationDisposition.toNat := UInt32.le_iff_toNat_le.mp hpos
  generalize args.dwCreationDisposition.toNat = n at *
  obtain rfl | rfl | rfl | rfl | rfl : n = 1 ∨ n = 2 ∨ n = 3 ∨ n = 4 ∨ n = 5 := by omega
  all_goals
    simp only [dispositionFlags, List.getElem?_cons_zero, List.getElem?_cons_succ, Nat.reduceSub,
      Option.some.injEq, Prod.mk.injEq] at hsome
    obtain ⟨rfl, rfl, rfl⟩ := hsome
    exact ⟨_, hrequest _ rfl, rfl, rfl, rfl, rfl⟩

lemma setData_self (sys : System δ) (i : ℕ) : sys.setData i (sys.data i) = sys := by
  rw [System.setData, Function.update_eq_self]

section Calls

variable [DecidableEq δ] {resolve : CString → δ} {sys' : System δ} {host : Host} {r : Reply}

/-- One call as the program sees it. -/
def Simulated (resolve : CString → δ) (host : Host) (sys : System δ) (c : Call) (r : Reply)
    (sys' : System δ) : Prop :=
  Started sys' ∧ (view sys).Step resolve ⟨host, c, r⟩ (view sys')

lemma createFileA_simulated (hs : Started sys) {args : CreateFile}
    (h : createFileA resolve host sys args = some (r, sys')) :
    Simulated resolve host sys (.createFileA args) r sys' := by
  rw [createFileA] at h
  cases hflags : openFlags args with
  | none =>
    rw [hflags] at h
    cases h
  | some flags =>
    obtain ⟨req, hreq, haccess, hopens, hcreates, hempties⟩ := request_flags hflags
    rw [hflags] at h
    set d := resolve (pathDupUnx args.lpFileName) with hd
    cases hopen : sys.openAt d flags host with
    | none =>
      simp only [hopen, Option.some.injEq, Prod.mk.injEq] at h
      obtain ⟨rfl, rfl⟩ := h
      refine ⟨hs, .not_opened hreq ?_⟩
      rcases System.openAt_none hopen with hpermits | hlowest | hcase
      · exact .inl hpermits
      · exact .inr (.inl (full_of_lowest hlowest))
      · refine .inr (.inr ?_)
        change (if (sys.entry d).isSome then _ else _) = false
        split_ifs at hcase ⊢
        · simpa [hcase] using hopens
        · rw [← hcreates, hcase]
    | some opened =>
      obtain ⟨fd, sys₁⟩ := opened
      simp only [hopen, Option.some.injEq, Prod.mk.injEq] at h
      obtain ⟨rfl, rfl⟩ := h
      obtain ⟨hlowest, hcase⟩ := System.openAt_some hopen
      obtain ⟨hlt, hown, hno, hfree⟩ := hs.free hlowest
      set h₀ := (fd + 1).toUInt32 with hh₀
      clear_value h₀
      subst hno
      rcases hcase with ⟨hnone, hcreat, rfl⟩ | ⟨hdevice, hexcl, rfl⟩ | ⟨i, hi, hexcl, rfl⟩
      · have hlinked : Started (sys.link d) := hs.of_fds rfl
        have hstep : (view sys).Step resolve ⟨host, .createFileA args, .handle h₀⟩ _ :=
          .created (i := sys.next) hreq hnone (by rw [← hcreates, hcreat])
            (fun d' hd' => (sys.named d' _ hd').ne rfl) (fun h' o ho => (sys.opened _ _ ho).ne) hown
            hfree
        rw [← haccess] at hstep
        refine ⟨hlinked.hold _ _ _, ?_⟩
        convert hstep using 1
        exact view_hold (show fileno h₀ < (sys.link d).fds.limit from hlt) _
      · refine ⟨hs.hold _ _ _, ?_⟩
        rw [view_hold hlt]
        exact .device_opened hreq hdevice (by simpa [hexcl] using hopens) hown hfree
      · have hheld := hs.hold (fileno h₀) (.file ⟨i, 0, flags.access⟩)
          fun _ ho => Object.file.inj ho ▸ sys.named d i hi
        have hstep : (view sys).Step resolve ⟨host, .createFileA args, .handle h₀⟩ _ :=
          .opened hreq hi (by simpa [hexcl] using hopens) hown hfree
        rw [← hempties, ← haccess] at hstep
        by_cases htrunc : flags.trunc = true
        · rw [if_pos htrunc] at hstep ⊢
          refine ⟨hheld.of_fds rfl, ?_⟩
          convert hstep using 1
          exact congrArg (fun s : Store δ => { s with bytes := Function.update sys.data i [] })
            (view_hold hlt _)
        · rw [if_neg htrunc] at hstep ⊢
          refine ⟨hheld, ?_⟩
          convert hstep using 1
          exact view_hold hlt _

lemma Simulated.of_edited (hs : Started sys) {c : Call} {h : UInt32} {o : OpenFile}
    (hopen : sys.fds.get (fileno h) = some (.file o)) (hcall : handleOf c = some h) {pos : ℕ}
    {bytes : List UInt8}
    (hedit : Editor.Step ⟨sys.data o.inode, o.pos, o.access⟩ ⟨host, c, r⟩ ⟨bytes, pos, o.access⟩)
    (hi : o.inode < sys.next) :
    Simulated resolve host sys c r
      ((sys.holdFile (fileno h) { o with pos := pos } hi).setData o.inode bytes) := by
  have hheld : Started (sys.holdFile (fileno h) { o with pos := pos } hi) := hs.hold _ _ _
  refine ⟨hheld.of_fds rfl, ?_⟩
  have hstep : (view sys).Step resolve ⟨host, c, r⟩ _ := .edited hcall hopen hedit
  convert hstep using 1
  exact congrArg (fun s : Store δ => { s with bytes := Function.update sys.data o.inode bytes })
    (view_hold (Slots.lt_limit hopen) _)

/-- A call that fails on an open file. -/
lemma Simulated.of_unedited (hs : Started sys) {c : Call} {h : UInt32} {o : OpenFile}
    (hopen : sys.fds.get (fileno h) = some (.file o)) (hcall : handleOf c = some h)
    (hedit : Editor.Step ⟨sys.data o.inode, o.pos, o.access⟩ ⟨host, c, r⟩
      ⟨sys.data o.inode, o.pos, o.access⟩) : Simulated resolve host sys c r sys := by
  refine ⟨hs, ?_⟩
  have hstep : (view sys).Step resolve ⟨host, c, r⟩ _ := .edited hcall hopen hedit
  have hsame : (view sys).edit h o.inode ⟨sys.data o.inode, o.pos, o.access⟩ = view sys := by
    have hbytes : Function.update (view sys).bytes o.inode (sys.data o.inode) = (view sys).bytes :=
      Function.update_eq_self _ _
    have hhandles : Function.update (view sys).handles h (some (.file o)) = (view sys).handles := by
      rw [← hopen]
      exact Function.update_eq_self h (view sys).handles
    rw [Store.edit, hbytes, hhandles]
  rwa [hsame] at hstep

lemma readFile_simulated (hs : Started sys) {hFile n lpOverlapped : UInt32}
    (h : readFile host sys hFile n lpOverlapped = some (r, sys')) :
    Simulated resolve host sys (.readFile hFile n lpOverlapped) r sys' := by
  rw [readFile] at h
  by_cases hoverlapped : lpOverlapped ≠ 0
  · rw [if_pos hoverlapped] at h
    cases h
  · rw [if_neg hoverlapped] at h
    rw [not_not] at hoverlapped
    subst hoverlapped
    cases hobject : sys.fds.get (fileno hFile) with
    | none =>
      simp only [System.read_none hobject, Option.some.injEq, Prod.mk.injEq] at h
      obtain ⟨rfl, rfl⟩ := h
      exact ⟨hs, .nothing rfl hobject .read⟩
    | some object =>
      cases object with
      | device =>
        obtain ⟨answer, hread⟩ := System.read_device hobject
        rw [hread] at h
        cases answer <;> cases h <;> exact ⟨hs, .device rfl hobject⟩
      | file o =>
        rw [System.read_file hobject] at h
        by_cases hcan : (host.permits && o.access.reads) = true
        · simp only [if_pos hcan, Option.some.injEq, Prod.mk.injEq] at h
          obtain ⟨rfl, rfl⟩ := h
          rw [Bool.and_eq_true] at hcan
          rw [← setData_self (sys.holdFile _ _ _) o.inode]
          refine .of_edited hs hobject rfl (.read hcan.2 ?_ ?_) _
          · rw [min_comm, ← List.take_take]
            exact List.take_prefix _ _
          · intro hnil
            rcases List.take_eq_nil_iff.mp hnil with hzero | hdrop
            · left
              apply UInt32.toNat.inj
              simp only [transferMax] at hzero
              simp
              omega
            · exact .inr (List.drop_eq_nil_iff.mp hdrop)
        · simp only [if_neg hcan, Option.some.injEq, Prod.mk.injEq] at h
          obtain ⟨rfl, rfl⟩ := h
          refine .of_unedited hs hobject rfl (.not_read ?_)
          simpa [Decidable.or_iff_not_imp_left] using hcan

lemma writeFile_simulated (hs : Started sys) {hFile lpOverlapped : UInt32} {buf : List UInt8}
    (h : writeFile host sys hFile buf lpOverlapped = some (r, sys')) :
    Simulated resolve host sys (.writeFile hFile buf lpOverlapped) r sys' := by
  rw [writeFile] at h
  by_cases hoverlapped : lpOverlapped ≠ 0
  · rw [if_pos hoverlapped] at h
    cases h
  · rw [if_neg hoverlapped] at h
    rw [not_not] at hoverlapped
    subst hoverlapped
    cases hobject : sys.fds.get (fileno hFile) with
    | none =>
      simp only [System.write_none hobject, Option.some.injEq, Prod.mk.injEq] at h
      obtain ⟨rfl, rfl⟩ := h
      exact ⟨hs, .nothing rfl hobject .write⟩
    | some object =>
      cases object with
      | device =>
        obtain ⟨answer, hwrite⟩ := System.write_device hobject
        rw [hwrite] at h
        cases answer <;> cases h <;> exact ⟨hs, .device rfl hobject⟩
      | file o =>
        rw [System.write_file hobject] at h
        by_cases hcan : (host.permits && o.access.writes) = true
        · simp only [if_pos hcan, Option.some.injEq, Prod.mk.injEq] at h
          obtain ⟨rfl, rfl⟩ := h
          rw [Bool.and_eq_true] at hcan
          refine .of_edited hs hobject rfl ?_ _
          have hstep : Editor.Step ⟨sys.data o.inode, o.pos, o.access⟩
              ⟨host, .writeFile hFile buf 0,
                .written true (buf.take (min host.room transferMax)).length⟩ _ :=
            .written hcan.2 (List.length_take_le' _ _)
          have htake : buf.take (buf.take (min host.room transferMax)).length =
              buf.take (min host.room transferMax) := by
            rw [List.length_take, ← List.take_take, List.take_length]
          rwa [htake] at hstep
        · simp only [if_neg hcan, Option.some.injEq, Prod.mk.injEq] at h
          obtain ⟨rfl, rfl⟩ := h
          refine .of_unedited hs hobject rfl (.not_written ?_)
          simpa [Decidable.or_iff_not_imp_left] using hcan

lemma setFilePointer_simulated (hs : Started sys) {hFile high method : UInt32} {distance : ℤ}
    (h : setFilePointer host sys hFile distance high method = some (r, sys')) :
    Simulated resolve host sys (.setFilePointer hFile distance high method) r sys' := by
  rw [setFilePointer] at h
  by_cases hhigh : high ≠ 0
  · rw [if_pos hhigh] at h
    cases h
  · rw [if_neg hhigh] at h
    rw [not_not] at hhigh
    subst hhigh
    cases hobject : sys.fds.get (fileno hFile) with
    | none =>
      simp only [System.lseek_none hobject, Option.some.injEq, Prod.mk.injEq] at h
      obtain ⟨rfl, rfl⟩ := h
      exact ⟨hs, .nothing rfl hobject .move⟩
    | some object =>
      cases object with
      | device =>
        obtain ⟨answer, hseek⟩ := System.lseek_device hobject
        rw [hseek] at h
        cases answer <;> cases h <;> exact ⟨hs, .device rfl hobject⟩
      | file o =>
        rw [System.lseek_file hobject] at h
        cases hseek : seek o.pos (sys.data o.inode).length distance method.toNat host with
        | none =>
          simp only [hseek, Option.some.injEq, Prod.mk.injEq] at h
          obtain ⟨rfl, rfl⟩ := h
          exact .of_unedited hs hobject rfl (.not_moved (seek_none hseek))
        | some pos =>
          simp only [hseek, Option.some.injEq, Prod.mk.injEq] at h
          obtain ⟨rfl, rfl⟩ := h
          rw [← setData_self (sys.holdFile _ _ _) o.inode]
          rcases seek_some hseek with ⟨base, hbase, hpos⟩ | ⟨hmethod, hlo, hhi, hend⟩
          · exact .of_edited hs hobject rfl (.moved hbase hpos) _
          · exact .of_edited hs hobject rfl (.found hmethod ⟨hlo, hhi⟩ hend) _

lemma getFileSize_simulated (hs : Started sys) {hFile high : UInt32}
    (h : getFileSize host sys hFile high = some r) :
    Simulated resolve host sys (.getFileSize hFile high) r sys := by
  rw [getFileSize] at h
  by_cases hhigh : high ≠ 0
  · rw [if_pos hhigh] at h
    cases h
  · rw [if_neg hhigh] at h
    rw [not_not] at hhigh
    subst hhigh
    cases hobject : sys.fds.get (fileno hFile) with
    | none =>
      simp only [System.size, hobject, Option.some.injEq] at h
      subst h
      exact ⟨hs, .nothing rfl hobject .size⟩
    | some object =>
      cases object with
      | device => exact ⟨hs, .device rfl hobject⟩
      | file o =>
        by_cases hpermits : host.permits = true
        · simp only [System.size, hobject, if_pos hpermits, Option.some.injEq] at h
          subst h
          exact .of_unedited hs hobject rfl .size
        · simp only [System.size, hobject, if_neg hpermits, Option.some.injEq] at h
          subst h
          exact .of_unedited hs hobject rfl (.no_size (by simpa using hpermits))

lemma Simulated.of_closed (hs : Started sys) {c : Call} {h : UInt32} {object : Object}
    (hown : 3 < h) (hopen : sys.fds.get (fileno h) = some object)
    (hstep : (view sys).Step resolve ⟨host, c, r⟩
      { view sys with handles := Function.update (view sys).handles h none }) :
    Simulated resolve host sys c r (sys.close (fileno h) host).2 := by
  obtain ⟨-, hfds, hentry, hdata⟩ := System.close_some hopen
  refine ⟨⟨by rw [hfds]; exact hs.limit, fun fd hfd hnone => hs.std fd hfd ?_⟩, ?_⟩
  · have hne : fd ≠ fileno h := by
      have := (fileno_own hown).2
      omega
    rwa [hfds, Slots.remove_get, Function.update_of_ne hne] at hnone
  · convert hstep using 1
    simp only [view, hfds, hentry, hdata, Slots.remove_get, handles_update, Slots.remove_limit]

lemma closeHandle_simulated (hs : Started sys) (h : UInt32) :
    Simulated resolve host sys (.closeHandle h) (closeHandle host sys h).1
      (closeHandle host sys h).2 := by
  by_cases hown : 3 < h
  · rw [closeHandle, if_pos hown]
    cases hobject : sys.fds.get (fileno h) with
    | none =>
      rw [System.close_none hobject]
      exact ⟨hs, .not_open hown hobject⟩
    | some object =>
      exact .of_closed hs hown hobject (.closed hown hobject (System.close_some hobject).1)
  · rw [closeHandle, if_neg hown]
    exact ⟨hs, .standard (UInt32.not_lt.mp hown)⟩

lemma deleteFileA_simulated (hs : Started sys) (lpFileName : CString) :
    Simulated resolve host sys (.deleteFileA lpFileName) (deleteFileA resolve host sys lpFileName).1
      (deleteFileA resolve host sys lpFileName).2 := by
  rw [deleteFileA, System.unlink]
  by_cases hcan :
      (host.permits && (sys.entry (resolve (pathDupUnx lpFileName))).isSome) = true
  · rw [if_pos hcan]
    rw [Bool.and_eq_true] at hcan
    obtain ⟨i, hi⟩ := Option.isSome_iff_exists.mp hcan.2
    exact ⟨hs.of_fds rfl, .deleted hi⟩
  · rw [if_neg hcan]
    refine ⟨hs, .not_deleted ?_⟩
    by_cases hpermits : host.permits = false
    · exact .inl hpermits
    · right
      change sys.entry _ = none
      simpa [hpermits] using hcan

lemma opendir_simulated (hs : Started sys)
    (h : call resolve host sys .opendir = some (r, sys')) :
    Simulated resolve host sys .opendir r sys' := by
  rw [call, System.openDevice] at h
  by_cases hpermits : host.permits = false
  · simp only [if_pos hpermits, Option.some.injEq, Prod.mk.injEq] at h
    obtain ⟨rfl, rfl⟩ := h
    exact ⟨hs, .no_directory (.inl hpermits)⟩
  · cases hlowest : sys.fds.lowest with
    | none =>
      simp only [if_neg hpermits, hlowest, Option.some.injEq, Prod.mk.injEq] at h
      obtain ⟨rfl, rfl⟩ := h
      exact ⟨hs, .no_directory (.inr (full_of_lowest hlowest))⟩
    | some fd =>
      simp only [if_neg hpermits, hlowest, Option.some.injEq, Prod.mk.injEq] at h
      obtain ⟨rfl, rfl⟩ := h
      obtain ⟨hlt, hown, hno, hfree⟩ := hs.free hlowest
      set h₀ := (fd + 1).toUInt32 with hh₀
      clear_value h₀
      subst hno
      refine ⟨hs.hold _ _ _, ?_⟩
      rw [view_hold hlt]
      exact .directory hown hfree

lemma closedir_simulated (hs : Started sys) {fd : ℕ}
    (h : call resolve host sys (.closedir fd) = some (r, sys')) :
    Simulated resolve host sys (.closedir fd) r sys' := by
  rw [call] at h
  by_cases hdir : 3 ≤ fd ∧ sys.fds.get fd = some .device
  · rw [if_pos hdir] at h
    simp only [Option.some.injEq, Prod.mk.injEq] at h
    obtain ⟨rfl, rfl⟩ := h
    obtain ⟨hlow, hdevice⟩ := hdir
    have hlt := Slots.lt_limit hdevice
    have hlimit := hs.limit
    have hno : fileno (fd + 1).toUInt32 = fd := fileno_handle (by omega)
    have hnat : (fd + 1).toUInt32.toNat = fd + 1 := by
      rw [Nat.toUInt32, UInt32.toNat_ofNat_of_lt' (by simp [UInt32.size]; omega)]
    set h₀ := (fd + 1).toUInt32 with hh₀
    have hown : 3 < h₀ := by
      rw [UInt32.lt_iff_toNat_lt, hnat]
      simp
      omega
    clear_value h₀
    subst hno
    exact .of_closed hs hown hdevice
      (.directory_closed hown hnat hdevice (System.close_some hdevice).1)
  · rw [if_neg hdir] at h
    cases h

lemma duplicateHandle_simulated (hs : Started sys) {h₀ : UInt32}
    (h : duplicateHandle h₀ = some r) : Simulated resolve host sys (.duplicateHandle h₀) r sys := by
  rw [duplicateHandle] at h
  by_cases hother : h₀ < 1 ∨ 3 < h₀
  · rw [if_pos hother] at h
    cases h
  · rw [if_neg hother, Option.some.injEq] at h
    subst h
    rw [not_or, UInt32.not_lt, UInt32.not_lt] at hother
    exact ⟨hs, .duplicated hother⟩

lemma getStdHandle_simulated (hs : Started sys) (n : UInt32) :
    Simulated resolve host sys (.getStdHandle n) (getStdHandle n) sys := by
  rw [getStdHandle]
  by_cases hlarge : 2 < -n - 10
  · rw [if_pos hlarge]
    refine ⟨hs, .std_handle (.inr (.inr (.inr ⟨?_, rfl⟩)))⟩
    simp only [List.mem_cons, List.not_mem_nil, or_false]
    rintro (rfl | rfl | rfl) <;> exact absurd hlarge (by decide)
  · rw [if_neg hlarge]
    refine ⟨hs, .std_handle ?_⟩
    have hle : (-n - 10).toNat ≤ 2 := UInt32.le_iff_toNat_le.mp (UInt32.not_lt.mp hlarge)
    have hcases : -n - 10 = 0 ∨ -n - 10 = 1 ∨ -n - 10 = 2 := by
      rcases Nat.lt_or_ge (-n - 10).toNat 1 with h | h
      · exact .inl (UInt32.toNat.inj (by simp; omega))
      · rcases Nat.lt_or_ge (-n - 10).toNat 2 with h' | h'
        · exact .inr (.inl (UInt32.toNat.inj (by simp; omega)))
        · exact .inr (.inr (UInt32.toNat.inj (by simp; omega)))
    have hn : n = -10 - (-n - 10) := by grind only
    rcases hcases with h | h | h
    · exact .inl ⟨by rw [hn, h]; decide, by rw [h]; decide⟩
    · exact .inr (.inl ⟨by rw [hn, h]; decide, by rw [h]; decide⟩)
    · exact .inr (.inr (.inl ⟨by rw [hn, h]; decide, by rw [h]; decide⟩))

/-- Every call of the program is one of the store's. -/
lemma call_simulated (hs : Started sys) {c : Call} (h : call resolve host sys c = some (r, sys')) :
    Simulated resolve host sys c r sys' := by
  cases c with
  | createFileA args => exact createFileA_simulated hs h
  | closeHandle hObject =>
    obtain ⟨rfl, rfl⟩ := Prod.mk.inj (Option.some.inj h)
    exact closeHandle_simulated hs hObject
  | readFile hFile n lpOverlapped => exact readFile_simulated hs h
  | writeFile hFile buf lpOverlapped => exact writeFile_simulated hs h
  | setFilePointer hFile distance high method => exact setFilePointer_simulated hs h
  | getFileSize hFile high =>
    obtain ⟨r', hr, heq⟩ := Option.map_eq_some_iff.mp h
    obtain ⟨rfl, rfl⟩ := Prod.mk.inj heq
    exact getFileSize_simulated hs hr
  | deleteFileA lpFileName =>
    obtain ⟨rfl, rfl⟩ := Prod.mk.inj (Option.some.inj h)
    exact deleteFileA_simulated hs lpFileName
  | duplicateHandle h₀ =>
    obtain ⟨r', hr, heq⟩ := Option.map_eq_some_iff.mp h
    obtain ⟨rfl, rfl⟩ := Prod.mk.inj heq
    exact duplicateHandle_simulated hs hr
  | getStdHandle n =>
    obtain ⟨rfl, rfl⟩ := Prod.mk.inj (Option.some.inj h)
    exact getStdHandle_simulated hs n
  | opendir => exact opendir_simulated hs h
  | closedir fd => exact closedir_simulated hs h

lemma calls_simulated {events : List Event} (hs : Started sys)
    (h : Calls resolve sys events sys') :
    Started sys' ∧ (view sys).Run resolve events (view sys') := by
  induction h with
  | nil sys => exact ⟨hs, .nil _⟩
  | cons step rest ih =>
    obtain ⟨hs₁, hstep⟩ := call_simulated hs step
    obtain ⟨hs', hrun⟩ := ih hs₁
    exact ⟨hs', .cons hstep hrun⟩

end Calls

/-- Any run of file calls is one that the store of named files allows, and it leaves the standard
handles open. -/
theorem calls_refine {δ : Type*} [DecidableEq δ] (resolve : CString → δ) (sys sys' : System δ)
    (events : List Event) (hs : Started sys) (hcalls : Calls resolve sys events sys') :
    (view sys).Run resolve events (view sys') ∧
      ∀ h : UInt32, 1 ≤ h → h ≤ 3 → (view sys').handles h ≠ none := by
  obtain ⟨hs', hrun⟩ := calls_simulated hs hcalls
  refine ⟨hrun, fun h hlo hhi => hs'.std (fileno h) ?_⟩
  have hlo' := UInt32.le_iff_toNat_le.mp hlo
  have hhi' := UInt32.le_iff_toNat_le.mp hhi
  rw [fileno, UInt32.toNat_sub_of_le _ _ hlo]
  simp at hlo' hhi' ⊢
  omega

def nullDevice : CString := ascii "/dev/null"

/-- A system with three standard descriptors, a device and no files. -/
def freshSystem (limit : ℕ) : System CString where
  fds :=
    { limit := limit
      get := fun fd => if fd < 3 ∧ fd < limit then some .device else none
      inside := by
        intro fd hfd
        rw [if_neg (by omega)] }
  entry := fun d => if d = nullDevice then some .device else none
  data := fun _ => []
  next := 0
  named := by
    intro d i hi
    split_ifs at hi
    cases hi
  opened := by
    intro fd o ho
    dsimp only at ho
    split_ifs at ho
    cases ho

lemma freshSystem_started : Started (freshSystem 0x400) := by
  refine ⟨by decide, fun fd hfd => ?_⟩
  interval_cases fd <;> decide

def willing : Host := ⟨true, 0x1000, [], none⟩

def createAlways (name : CString) : CreateFile := ⟨name, GENERIC_WRITE, 0, 0, 2, 0x80, 0⟩

def openExisting (name : CString) : CreateFile := ⟨name, GENERIC_READ, 0, 0, 3, 0x80, 0⟩

def objectFile : CString := ascii "a.o"

def depFile : CString := ascii "dep\\a.d"

def leaking : List Event :=
  [⟨willing, .createFileA (createAlways objectFile), .handle 4⟩,
    ⟨willing, .closeHandle 1, .bool true⟩,
    ⟨willing, .closeHandle 4, .bool true⟩,
    ⟨willing, .writeFile 4 (ascii "ELF") 0, .written false 0⟩,
    ⟨willing, .closeHandle 4, .bool false⟩]

theorem calls_refine_leaking : ∃ sys', Calls id (freshSystem 0x400) leaking sys' ∧
    (view (freshSystem 0x400)).Run id leaking (view sys') ∧ (view sys').handles 1 ≠ none := by
  obtain ⟨sys', hsys'⟩ := Option.isSome_iff_exists.mp
    (show (replay id (freshSystem 0x400) leaking).isSome = true by decide +kernel)
  obtain ⟨hrun, hstd⟩ := calls_refine id (freshSystem 0x400) sys' leaking freshSystem_started
    (replay_calls hsys')
  exact ⟨sys', replay_calls hsys', hrun, hstd 1 (by decide) (by decide)⟩

end Metroskrew.Dlls.FileRefinement
