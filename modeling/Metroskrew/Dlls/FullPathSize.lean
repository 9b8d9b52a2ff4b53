import Metroskrew.Dlls.Kernel32
import Metroskrew.Library.Buffer

/-! The buffer of `GetFullPathNameA`: what is stored in it, and the size that is asked for when it is
too small. A store outside the buffer has no result. -/

namespace Metroskrew.Dlls.FullPathSize

open Metroskrew.Dlls Metroskrew.Library.Buffer

/-- The name of a file, in one address space with the array `GetCurrentDirectoryA` has on its
stack. -/
structure FileName where
  text : CString
  noNul : 0 ∉ text
  fits : text.length + 1 + 0x1000 < 2 ^ 32

/-- What `getcwd` names. -/
structure WorkDir where
  text : CString
  noNul : 0 ∉ text
  nonempty : text ≠ []
  short : text.length < 0x1000

def storeByte (lpBuffer : List UInt8) (p : ℕ) (c : UInt8) : Option (List UInt8) :=
  if p < lpBuffer.length then some (lpBuffer.set p c) else none

/-- `*p++ = c` for the bytes of `s` -/
def storeBytes : List UInt8 → ℕ → List UInt8 → Option (List UInt8)
  | [], _, lpBuffer => some lpBuffer
  | c :: s, p, lpBuffer => do
    let lpBuffer ← storeByte lpBuffer p c
    storeBytes s (p + 1) lpBuffer

def dosByte (c : UInt8) : UInt8 := if c = 0x2f then 0x5c else c

def getCurrentDirectoryA (path : CString) (nBufferLength : ℕ) (lpBuffer : List UInt8) :
    Option (ℕ × List UInt8) :=
  if 0x1000 < path.length + 1 then some (0, lpBuffer)
  else
    let pathLen := path.length + 1
    if nBufferLength < pathLen then some (pathLen, lpBuffer)
    else do
      let lpBuffer ← storeBytes (path.map dosByte) 0 lpBuffer
      let lpBuffer ← storeByte lpBuffer path.length 0
      some ((cstr lpBuffer).length, lpBuffer)

/-- The value returned, `lpBuffer`, and where in it `*lpFilePart` points if it is set. -/
structure Called where
  res : ℕ
  lpBuffer : List UInt8
  lpFilePart : Option ℕ
  deriving Repr, DecidableEq

/-- From `Append the filename` on. -/
def appendFileName (lpFileName : CString) (nBufferLength fullLen res : ℕ) (lpBuffer : List UInt8) :
    Option Called :=
  if nBufferLength < (fullLen + 1) % 2 ^ 32 then some ⟨(fullLen + 1) % 2 ^ 32, lpBuffer, none⟩
  else do
    let lpBuffer ← storeBytes (lpFileName ++ [0]) res lpBuffer
    some ⟨fullLen, lpBuffer, some (filePart (cstr lpBuffer))⟩

def getFullPathNameA (cwd lpFileName : CString) (nBufferLength : ℕ) (lpBuffer : List UInt8) :
    Option Called :=
  let nameLen := lpFileName.length
  if lpFileName.head? ≠ some 0x5c ∧ ¬ pathHasDrv lpFileName then do
    let (res, lpBuffer) ← getCurrentDirectoryA cwd nBufferLength lpBuffer
    if res = 0 then some ⟨0, lpBuffer, none⟩
    else
      let fullLen := (nameLen + (res + 1)) % 2 ^ 32
      if nBufferLength < res + 1 then some ⟨(fullLen + 1) % 2 ^ 32, lpBuffer, none⟩
      else do
        let lpBuffer ← storeByte lpBuffer res 0x5c
        appendFileName lpFileName nBufferLength fullLen (res + 1) lpBuffer
  else appendFileName lpFileName nBufferLength nameLen 0 lpBuffer

/-! ### One required size -/

def Absolute (lpFileName : CString) : Prop :=
  lpFileName.head? = some 0x5c ∨ pathHasDrv lpFileName = true

instance (lpFileName : CString) : Decidable (Absolute lpFileName) :=
  inferInstanceAs (Decidable (_ ∨ _))

def fullName (cwd lpFileName : CString) : CString :=
  if Absolute lpFileName then lpFileName else cwd.map dosByte ++ 0x5c :: lpFileName

def fullLength (cwd lpFileName : CString) : ℕ :=
  if Absolute lpFileName then lpFileName.length else cwd.length + 1 + lpFileName.length

/-- Just after the last backslash, or at the start. -/
structure IsFilePart (s : CString) (p : ℕ) : Prop where
  after : 0x5c ∉ s.drop p
  start : p = 0 ∨ s[p - 1]? = some 0x5c

/-- A call with room for the full name stores it, and one without asks for its size. Every store is
inside the buffer. -/
def ReportsSize (cwd lpFileName : CString) (lpBuffer : List UInt8) : Prop :=
  ∃ called, getFullPathNameA cwd lpFileName lpBuffer.length lpBuffer = some called ∧
    (fullLength cwd lpFileName + 1 ≤ lpBuffer.length →
      called.res = fullLength cwd lpFileName ∧
        fullName cwd lpFileName ++ [0] <+: called.lpBuffer ∧
        ∃ p, called.lpFilePart = some p ∧ IsFilePart (fullName cwd lpFileName) p) ∧
    (lpBuffer.length ≤ fullLength cwd lpFileName →
      called.res = fullLength cwd lpFileName + 1)

lemma filePart_of_not_mem {s : CString} (h : 0x5c ∉ s) : filePart s = 0 := by
  have hall : s.reverse.takeWhile (· ≠ 0x5c) = s.reverse := by
    rw [List.takeWhile_eq_self_iff]
    intro c hc
    simpa using ne_of_mem_of_not_mem (List.mem_reverse.mp hc) h
  rw [filePart, hall, List.length_reverse, Nat.sub_self]

lemma filePart_append (dir : CString) {name : CString} (h : 0x5c ∉ name) :
    filePart (dir ++ 0x5c :: name) = dir.length + 1 := by
  have hname : (dir ++ 0x5c :: name).reverse.takeWhile (· ≠ 0x5c) = name.reverse := by
    rw [List.reverse_append, List.reverse_cons, List.append_assoc, List.takeWhile_append_of_pos]
    · simp
    · intro c hc
      simpa using ne_of_mem_of_not_mem (List.mem_reverse.mp hc) h
  rw [filePart, hname, List.length_reverse, List.length_append, List.length_cons]
  omega

lemma isFilePart_filePart (s : CString) : IsFilePart s (filePart s) := by
  by_cases h : 0x5c ∈ s
  · obtain ⟨name, dir, hsplit, hname⟩ := List.eq_append_cons_of_mem (List.mem_reverse.mpr h)
    obtain rfl : s = dir.reverse ++ 0x5c :: name.reverse := by
      rw [← List.reverse_reverse s, hsplit]
      simp
    have hpart := filePart_append dir.reverse (fun hc => hname (List.mem_reverse.mp hc))
    rw [hpart]
    have hdrop : (dir.reverse ++ 0x5c :: name.reverse).drop (dir.reverse.length + 1) =
        name.reverse := by
      rw [List.append_cons, List.drop_left']
      simp
    constructor
    · rw [hdrop]
      exact fun hc => hname (List.mem_reverse.mp hc)
    · right
      simp
  · rw [filePart_of_not_mem h]
    exact ⟨h, Or.inl rfl⟩

lemma storeByte_eq_store (lpBuffer : List UInt8) (p : ℕ) (c : UInt8) :
    storeByte lpBuffer p c = store lpBuffer p c := by
  simp [storeByte, store]

lemma storeBytes_eq_copy (s : List UInt8) (p : ℕ) (lpBuffer : List UInt8) :
    storeBytes s p lpBuffer = copy s p lpBuffer := by
  induction s generalizing p lpBuffer with
  | nil => rfl
  | cons c s ih =>
    rw [storeBytes, copy, storeByte_eq_store]
    apply Option.bind_congr
    intro lpBuffer' _
    rw [ih, Nat.cast_succ]

lemma storeByte_over (c o : UInt8) (front back : List UInt8) :
    storeByte (front ++ o :: back) front.length c = some (front ++ c :: back) := by
  rw [storeByte_eq_store, store_between]

lemma storeBytes_over {s old : List UInt8} (front back : List UInt8) (h : old.length = s.length) :
    storeBytes s front.length (front ++ (old ++ back)) = some (front ++ (s ++ back)) := by
  rw [storeBytes_eq_copy, copy_between front back h]

lemma length_fullName (cwd lpFileName : CString) :
    (fullName cwd lpFileName).length = fullLength cwd lpFileName := by
  rw [fullName, fullLength]
  split_ifs
  · rfl
  · rw [List.length_append, List.length_map, List.length_cons]
    omega

lemma dosByte_ne_zero {s : CString} (h : 0 ∉ s) : 0 ∉ s.map dosByte := by
  intro hc
  obtain ⟨c, hmem, hzero⟩ := List.mem_map.mp hc
  rw [dosByte] at hzero
  split_ifs at hzero
  · cases hzero
  · subst hzero
    exact h hmem

lemma not_mem_fullName {cwd lpFileName : CString} (hcwd : 0 ∉ cwd) (hname : 0 ∉ lpFileName) :
    0 ∉ fullName cwd lpFileName := by
  rw [fullName]
  split_ifs
  · exact hname
  · intro hc
    rcases List.mem_append.mp hc with hdir | hfile
    · exact dosByte_ne_zero hcwd hdir
    · rcases List.mem_cons.mp hfile with hback | hfile
      · cases hback
      · exact hname hfile

variable (cwd : WorkDir) (lpFileName : FileName) (lpBuffer : List UInt8)

lemma getCurrentDirectoryA_small (h : lpBuffer.length ≤ cwd.text.length) :
    getCurrentDirectoryA cwd.text lpBuffer.length lpBuffer =
      some (cwd.text.length + 1, lpBuffer) := by
  have hshort := cwd.short
  rw [getCurrentDirectoryA, if_neg (by omega), if_pos (by omega)]

lemma getCurrentDirectoryA_stores (old : List UInt8) (o : UInt8) (back : List UInt8)
    (h : old.length = cwd.text.length) :
    getCurrentDirectoryA cwd.text (old ++ o :: back).length (old ++ o :: back) =
      some (cwd.text.length, cwd.text.map dosByte ++ 0 :: back) := by
  have hshort := cwd.short
  have hdir := storeBytes_over (s := cwd.text.map dosByte) [] (o :: back)
    (by rw [h, List.length_map])
  have hnul := storeByte_over 0 o (cwd.text.map dosByte) back
  rw [List.length_map] at hnul
  rw [List.length_nil, List.nil_append, List.nil_append] at hdir
  rw [getCurrentDirectoryA, if_neg (by omega), if_neg (by simp; omega), hdir, Option.bind_eq_bind,
    Option.bind_some, hnul, Option.bind_some, cstr_append (dosByte_ne_zero cwd.noNul), List.length_map]

lemma appendFileName_eq (dir rest : List UInt8) {name : CString} (h : 0 ∉ dir ++ name)
    (hfits : dir.length + name.length + 1 < 2 ^ 32) :
    appendFileName name (dir ++ rest).length (dir.length + name.length) dir.length (dir ++ rest) =
      some (if (dir ++ rest).length ≤ dir.length + name.length then
        ⟨dir.length + name.length + 1, dir ++ rest, none⟩
      else
        ⟨dir.length + name.length, dir ++ name ++ 0 :: rest.drop (name.length + 1),
          some (filePart (dir ++ name))⟩) := by
  rw [appendFileName, Nat.mod_eq_of_lt hfits]
  by_cases hroom : (dir ++ rest).length ≤ dir.length + name.length
  · rw [if_pos (by omega), if_pos hroom]
  · have hlen : (rest.take (name.length + 1)).length = (name ++ [0]).length := by
      rw [List.length_append] at hroom
      rw [List.length_take, List.length_append, List.length_singleton]
      omega
    have hstore := storeBytes_over dir (rest.drop (name.length + 1)) hlen
    have hdst : dir ++ ((name ++ [0]) ++ rest.drop (name.length + 1)) =
        dir ++ name ++ 0 :: rest.drop (name.length + 1) := by
      simp
    rw [List.take_append_drop, hdst] at hstore
    rw [if_neg (by omega), if_neg hroom, hstore, Option.bind_eq_bind, Option.bind_some,
      cstr_append h]

def Fits (cwd lpFileName : CString) (lpBuffer : List UInt8) : Prop :=
  ∃ partly rest, getFullPathNameA cwd lpFileName lpBuffer.length lpBuffer =
    some (if lpBuffer.length ≤ fullLength cwd lpFileName then
      ⟨fullLength cwd lpFileName + 1, partly, none⟩
    else
      ⟨fullLength cwd lpFileName, fullName cwd lpFileName ++ 0 :: rest,
        some (filePart (fullName cwd lpFileName))⟩)

lemma fits_of_append {cwd lpFileName : CString} {lpBuffer : List UInt8} (dir rest : List UInt8)
    (hfull : fullName cwd lpFileName = dir ++ lpFileName) (hnul : 0 ∉ fullName cwd lpFileName)
    (hfits : fullLength cwd lpFileName + 1 < 2 ^ 32) (hlen : lpBuffer.length = (dir ++ rest).length)
    (hcall : getFullPathNameA cwd lpFileName lpBuffer.length lpBuffer =
      appendFileName lpFileName (dir ++ rest).length (dir.length + lpFileName.length) dir.length
        (dir ++ rest)) :
    Fits cwd lpFileName lpBuffer := by
  have hL : fullLength cwd lpFileName = dir.length + lpFileName.length := by
    rw [← length_fullName, hfull, List.length_append]
  rw [hfull] at hnul
  rw [hL] at hfits
  rw [appendFileName_eq dir rest hnul hfits] at hcall
  refine ⟨dir ++ rest, rest.drop (lpFileName.length + 1), ?_⟩
  rw [hcall, hL, hfull, hlen]

lemma relative_iff (name : CString) :
    (name.head? ≠ some 0x5c ∧ ¬ pathHasDrv name) ↔ ¬ Absolute name := by
  rw [Absolute, not_or]

lemma fits_absolute (h : Absolute lpFileName.text) :
    Fits cwd.text lpFileName.text lpBuffer := by
  have hfits := lpFileName.fits
  have hrel := mt (relative_iff lpFileName.text).mp (not_not.mpr h)
  apply fits_of_append [] lpBuffer
  · rw [fullName, if_pos h, List.nil_append]
  · exact not_mem_fullName cwd.noNul lpFileName.noNul
  · rw [fullLength, if_pos h]
    omega
  · rfl
  · rw [getFullPathNameA, if_neg hrel, List.length_nil, Nat.zero_add, List.nil_append]

lemma fits_relative (h : ¬ Absolute lpFileName.text)
    (hroom : cwd.text.length + 1 ≤ lpBuffer.length) :
    Fits cwd.text lpFileName.text lpBuffer := by
  have hfits := lpFileName.fits
  have hshort := cwd.short
  obtain ⟨old, o, back, rfl, hold⟩ :
      ∃ old o back, lpBuffer = old ++ o :: back ∧ old.length = cwd.text.length := by
    refine ⟨lpBuffer.take cwd.text.length, lpBuffer[cwd.text.length],
      lpBuffer.drop (cwd.text.length + 1), ?_, List.length_take_of_le (by omega)⟩
    rw [← List.drop_eq_getElem_cons, List.take_append_drop]
  have hpos : cwd.text.length ≠ 0 := fun hz => cwd.nonempty (List.length_eq_zero_iff.mp hz)
  have hback := storeByte_over 0x5c 0 (cwd.text.map dosByte) back
  rw [List.length_map] at hback
  apply fits_of_append (cwd.text.map dosByte ++ [0x5c]) back
  · rw [fullName, if_neg h, List.append_assoc]
    rfl
  · exact not_mem_fullName cwd.noNul lpFileName.noNul
  · rw [fullLength, if_neg h]
    omega
  · simp [hold]
  · have hlen : (cwd.text.map dosByte ++ [0x5c]).length = cwd.text.length + 1 := by simp
    have hsum : (lpFileName.text.length + (cwd.text.length + 1)) % 2 ^ 32 =
        cwd.text.length + 1 + lpFileName.text.length := by
      rw [Nat.mod_eq_of_lt (by omega)]
      omega
    rw [getFullPathNameA, if_pos ((relative_iff _).mpr h),
      getCurrentDirectoryA_stores cwd old o back hold, Option.bind_eq_bind, Option.bind_some]
    dsimp only
    rw [if_neg hpos, if_neg (by simp; omega), hback, Option.bind_eq_bind, Option.bind_some, hsum,
      hlen]
    simp [hold]

lemma fits_of_room (h : Absolute lpFileName.text ∨ cwd.text.length + 1 ≤ lpBuffer.length) :
    Fits cwd.text lpFileName.text lpBuffer := by
  by_cases habs : Absolute lpFileName.text
  · exact fits_absolute cwd lpFileName lpBuffer habs
  · exact fits_relative cwd lpFileName lpBuffer habs (h.resolve_left habs)

/-- Without room for the directory the size is counted with one byte too many. -/
lemma getFullPathNameA_overstates (h : ¬ Absolute lpFileName.text)
    (hsmall : lpBuffer.length ≤ cwd.text.length) :
    getFullPathNameA cwd.text lpFileName.text lpBuffer.length lpBuffer =
      some ⟨(fullLength cwd.text lpFileName.text + 2) % 2 ^ 32, lpBuffer, none⟩ := by
  have hfits := lpFileName.fits
  have hshort := cwd.short
  have hsum : (lpFileName.text.length + (cwd.text.length + 1 + 1)) % 2 ^ 32 =
      cwd.text.length + 1 + lpFileName.text.length + 1 := by
    rw [Nat.mod_eq_of_lt (by omega)]
    omega
  rw [getFullPathNameA, if_pos ((relative_iff _).mpr h), getCurrentDirectoryA_small cwd _ hsmall,
    Option.bind_eq_bind, Option.bind_some]
  dsimp only
  rw [if_neg (Nat.succ_ne_zero _), if_pos (by omega), hsum, fullLength, if_neg h]

lemma text_append (dir : CString) {name : CString} {fullLen b : ℕ} (h : fullLen + 1 < 2 ^ 32) :
    Dlls.appendFileName dir name fullLen b =
      if b ≤ fullLen then (fullLen + 1, none)
      else (fullLen, some ⟨dir ++ name, filePart (dir ++ name)⟩) := by
  rw [Dlls.appendFileName, Nat.mod_eq_of_lt h, Nat.mod_eq_of_lt (by omega)]
  simp only [Nat.lt_succ_iff]

lemma text_room {b : ℕ} (h : Absolute lpFileName.text ∨ cwd.text.length + 1 ≤ b) :
    Dlls.getFullPathNameA cwd.text lpFileName.text b =
      if b ≤ fullLength cwd.text lpFileName.text then
        (fullLength cwd.text lpFileName.text + 1, none)
      else
        (fullLength cwd.text lpFileName.text,
          some ⟨fullName cwd.text lpFileName.text, filePart (fullName cwd.text lpFileName.text)⟩) := by
  have hfits := lpFileName.fits
  have hshort := cwd.short
  have hrel := relative_iff lpFileName.text
  by_cases habs : Absolute lpFileName.text
  · rw [Dlls.getFullPathNameA, if_neg (mt hrel.mp (not_not.mpr habs)), fullLength, fullName,
      if_pos habs, if_pos habs, text_append [] (by omega), List.nil_append]
  · have hroom := h.resolve_left habs
    obtain ⟨c, hc⟩ := Nat.exists_eq_succ_of_ne_zero
      fun hz => cwd.nonempty (List.length_eq_zero_iff.mp hz)
    have hdir : Dlls.getCurrentDirectoryA cwd.text b = (c + 1, some (cwd.text.map dosByte)) := by
      rw [Dlls.getCurrentDirectoryA, if_neg (by omega), if_neg (by omega)]
      dsimp only
      rw [List.length_map, hc]
      rfl
    rw [Dlls.getFullPathNameA, if_pos (hrel.mpr habs), hdir, fullLength, fullName, if_neg habs,
      if_neg habs]
    dsimp only
    rw [if_neg (by omega), text_append _ (by omega), List.append_assoc]
    have hsum : lpFileName.text.length + (c + 1 + 1) =
        cwd.text.length + 1 + lpFileName.text.length := by omega
    rw [hsum]
    rfl

lemma text_overstates {b : ℕ} (h : ¬ Absolute lpFileName.text) (hsmall : b ≤ cwd.text.length) :
    Dlls.getFullPathNameA cwd.text lpFileName.text b =
      ((fullLength cwd.text lpFileName.text + 2) % 2 ^ 32, none) := by
  have hshort := cwd.short
  have hdir : Dlls.getCurrentDirectoryA cwd.text b = (cwd.text.length + 1, none) := by
    rw [Dlls.getCurrentDirectoryA, if_neg (by omega), if_pos (by omega)]
  rw [Dlls.getFullPathNameA, if_pos ((relative_iff _).mpr h), hdir, fullLength, if_neg h]
  dsimp only
  rw [if_pos (by omega)]
  congr 2
  omega

/-- With the buffer in memory the call returns the same and stores the same string. -/
theorem getFullPathNameA_refines (cwd : WorkDir) (lpFileName : FileName) (lpBuffer : List UInt8) :
    ∃ called, getFullPathNameA cwd.text lpFileName.text lpBuffer.length lpBuffer = some called ∧
      called.res = (Dlls.getFullPathNameA cwd.text lpFileName.text lpBuffer.length).1 ∧
      ∀ full ∈ (Dlls.getFullPathNameA cwd.text lpFileName.text lpBuffer.length).2,
        cstr called.lpBuffer = full.lpBuffer ∧ called.lpFilePart = some full.lpFilePart := by
  by_cases hroom : Absolute lpFileName.text ∨ cwd.text.length + 1 ≤ lpBuffer.length
  · obtain ⟨partly, rest, hcall⟩ := fits_of_room cwd lpFileName lpBuffer hroom
    refine ⟨_, hcall, ?_⟩
    rw [text_room cwd lpFileName hroom]
    by_cases hsmall : lpBuffer.length ≤ fullLength cwd.text lpFileName.text
    · rw [if_pos hsmall, if_pos hsmall]
      exact ⟨rfl, fun _ hfull => by cases hfull⟩
    · rw [if_neg hsmall, if_neg hsmall]
      refine ⟨rfl, fun full hfull => ?_⟩
      obtain rfl := Option.some.inj hfull
      exact ⟨cstr_append (not_mem_fullName cwd.noNul lpFileName.noNul), rfl⟩
  · rw [not_or] at hroom
    have hsmall : lpBuffer.length ≤ cwd.text.length := by omega
    refine ⟨_, getFullPathNameA_overstates cwd lpFileName lpBuffer hroom.1 hsmall, ?_⟩
    rw [text_overstates cwd lpFileName hroom.1 hsmall]
    exact ⟨rfl, fun _ hfull => by cases hfull⟩

/-- The size is right except for a relative name and a buffer without room for the directory. -/
theorem reportsSize_iff (cwd : WorkDir) (lpFileName : FileName) (lpBuffer : List UInt8) :
    ReportsSize cwd.text lpFileName.text lpBuffer ↔
      Absolute lpFileName.text ∨ cwd.text.length + 1 ≤ lpBuffer.length := by
  constructor
  · rintro ⟨called, hcall, -, hsize⟩
    by_contra hnot
    rw [not_or] at hnot
    obtain ⟨hrel, hsmall⟩ := hnot
    rw [getFullPathNameA_overstates cwd lpFileName lpBuffer hrel (by omega)] at hcall
    obtain rfl := Option.some.inj hcall
    have hL : cwd.text.length + 1 ≤ fullLength cwd.text lpFileName.text := by
      rw [fullLength, if_neg hrel]
      omega
    have hres : (fullLength cwd.text lpFileName.text + 2) % 2 ^ 32 =
        fullLength cwd.text lpFileName.text + 1 := hsize (by omega)
    omega
  · intro hroom
    obtain ⟨partly, rest, hcall⟩ := fits_of_room cwd lpFileName lpBuffer hroom
    refine ⟨_, hcall, ?_, ?_⟩
    · intro hlong
      rw [if_neg (by omega)]
      exact ⟨rfl, ⟨rest, by simp⟩, _, rfl, isFilePart_filePart _⟩
    · intro hshort
      rw [if_pos hshort]

def work : WorkDir := ⟨ascii "/work", by decide +kernel, by decide +kernel, by decide +kernel⟩

def header : FileName := ⟨ascii "a.h", by decide +kernel, by decide +kernel⟩

theorem reportsSize_work : ¬ ReportsSize work.text header.text [0, 0, 0] := by
  rintro ⟨called, hcall, -, hsize⟩
  have hres : getFullPathNameA work.text header.text 3 [0, 0, 0] = some ⟨11, [0, 0, 0], none⟩ := by
    decide +kernel
  obtain rfl := Option.some.inj (hres.symm.trans hcall)
  have heq := hsize (by decide +kernel)
  revert heq
  decide +kernel

end Metroskrew.Dlls.FullPathSize
