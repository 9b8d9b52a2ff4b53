import Metroskrew.Dlls.Utils
import Metroskrew.Library.PathResolution

/-! The full name of a file, and the file that opening it reaches. -/

namespace Metroskrew.Dlls

open Metroskrew.Library.PathResolution

/-- What is stored in `lpBuffer`, and where in it `*lpFilePart` points. -/
structure FullPathName where
  lpBuffer : CString
  lpFilePart : ℕ
  deriving Repr, DecidableEq

def filePart (s : CString) : ℕ := s.length - (s.reverse.takeWhile (· ≠ 0x5c)).length

variable (cwd : CString)

/-- The value returned, and what is stored in `lpBuffer`; `cwd` is the directory `getcwd` names. -/
def getCurrentDirectoryA (nBufferLength : ℕ) : ℕ × Option CString :=
  if 0x1000 < cwd.length + 1 then (0, none)
  else
    let pathLen := cwd.length + 1
    if nBufferLength < pathLen then (pathLen, none)
    else
      let lpBuffer := cwd.map fun c => if c = 0x2f then 0x5c else c
      (lpBuffer.length, some lpBuffer)

def appendFileName (dir lpFileName : CString) (fullLen nBufferLength : ℕ) :
    ℕ × Option FullPathName :=
  if nBufferLength < fullLen + 1 then ((fullLen + 1) % 2 ^ 32, none)
  else (fullLen % 2 ^ 32, some ⟨dir ++ lpFileName, filePart (dir ++ lpFileName)⟩)

def getFullPathNameA (lpFileName : CString) (nBufferLength : ℕ) : ℕ × Option FullPathName :=
  let nameLen := lpFileName.length
  if lpFileName.head? ≠ some 0x5c ∧ ¬ pathHasDrv lpFileName then
    match getCurrentDirectoryA cwd nBufferLength with
    | (0, _) => (0, none)
    | (res + 1, dir) =>
      let fullLen := nameLen + (res + 1 + 1)
      if nBufferLength < res + 1 + 1 then ((fullLen + 1) % 2 ^ 32, none)
      else
        match dir with
        | none => (0, none)
        | some dir => appendFileName (dir ++ [0x5c]) lpFileName fullLen nBufferLength
  else appendFileName [] lpFileName nameLen nBufferLength

variable {cwd} {lpFileName : CString} {nBufferLength : ℕ} {full : FullPathName}

lemma pathHasDrv_backslash (s : CString) : pathHasDrv (0x5c :: s) = false := by
  cases s with
  | nil => rfl
  | cons d s =>
    cases s with
    | nil => rfl
    | cons e s => simp [pathHasDrv]

lemma pathDupUnx_eq {s : CString} (h : pathHasDrv s = false) : pathDupUnx s = s.map slash := by
  rw [pathDupUnx, h, slashLoop_eq]
  rfl

lemma slash_unslash (h : 0x5c ∉ cwd) :
    (cwd.map fun c => if c = 0x2f then 0x5c else c).map slash = cwd := by
  rw [List.map_map]
  calc cwd.map (slash ∘ fun c => if c = 0x2f then 0x5c else c) = cwd.map id := by
        apply List.map_congr_left
        intro c hc
        have hne : c ≠ 0x5c := ne_of_mem_of_not_mem hc h
        by_cases hslash : c = 0x2f
        · simp [slash, hslash]
        · simp [slash, hslash, hne]
    _ = cwd := List.map_id cwd

lemma appendFileName_some {dir : CString} {fullLen : ℕ}
    (h : (appendFileName dir lpFileName fullLen nBufferLength).2 = some full) :
    full.lpBuffer = dir ++ lpFileName := by
  rw [appendFileName] at h
  split_ifs at h
  cases h
  rfl

lemma getCurrentDirectoryA_some {res : ℕ} {dir : CString}
    (h : getCurrentDirectoryA cwd nBufferLength = (res, some dir)) :
    dir = cwd.map fun c => if c = 0x2f then 0x5c else c := by
  simp only [getCurrentDirectoryA] at h
  split_ifs at h
  · simp at h
  · simp at h
  · exact (Option.some.inj (congrArg Prod.snd h)).symm

lemma getFullPathNameA_some (h : (getFullPathNameA cwd lpFileName nBufferLength).2 = some full) :
    full.lpBuffer =
      if lpFileName.head? ≠ some 0x5c ∧ ¬ pathHasDrv lpFileName then
        (cwd.map fun c => if c = 0x2f then 0x5c else c) ++ 0x5c :: lpFileName
      else lpFileName := by
  simp only [getFullPathNameA] at h
  split_ifs at h ⊢ with hrel
  · cases hdir : getCurrentDirectoryA cwd nBufferLength with
    | mk res dir =>
      rw [hdir] at h
      cases res with
      | zero => cases h
      | succ res =>
        simp only at h
        split_ifs at h
        cases dir with
        | none => cases h
        | some dir =>
          rw [appendFileName_some h, getCurrentDirectoryA_some hdir, List.append_assoc]
          rfl
  · exact appendFileName_some h

lemma pathHasDrv_slash (s : CString) : pathHasDrv (0x2f :: s) = false := by
  cases s with
  | nil => rfl
  | cons d s =>
    cases s with
    | nil => rfl
    | cons e s => simp [pathHasDrv]

lemma head_slash {s : CString} (h : s.head? ≠ some 0x5c) :
    (s.map slash).head? = some 0x2f ↔ s.head? = some 0x2f := by
  cases s with
  | nil => simp
  | cons c s =>
    have hc : c ≠ 0x5c := fun hc => h (congrArg some hc)
    simp [slash, hc]

/-- Opened from any directory, the full name of a file given without its directory is the working
directory's components and its own. -/
lemma components_relative (here : List CString) (habs : cwd.head? = some 0x2f) (hcwd : 0x5c ∉ cwd) :
    components 0x2f here
        (pathDupUnx ((cwd.map fun c => if c = 0x2f then 0x5c else c) ++ 0x5c :: lpFileName)) =
      names 0x2f cwd ++ names 0x2f (lpFileName.map slash) := by
  have hhead : pathHasDrv ((cwd.map fun c => if c = 0x2f then 0x5c else c) ++ 0x5c :: lpFileName) =
      false := by
    cases cwd with
    | nil => cases habs
    | cons c dirs =>
      obtain rfl : c = 0x2f := Option.some.inj habs
      exact pathHasDrv_backslash _
  rw [pathDupUnx_eq hhead, List.map_append, slash_unslash hcwd, List.map_cons,
    show slash 0x5c = 0x2f from rfl, components, if_pos, names_append]
  cases cwd with
  | nil => cases habs
  | cons c dirs => exact habs

lemma components_name (here : List CString) (hback : lpFileName.head? ≠ some 0x5c)
    (hdrv : ¬ pathHasDrv lpFileName) :
    components 0x2f here (pathDupUnx lpFileName) =
      if lpFileName.head? = some 0x2f then names 0x2f (lpFileName.map slash)
      else here ++ names 0x2f (lpFileName.map slash) := by
  rw [pathDupUnx_eq (by simpa using hdrv), components]
  simp only [head_slash hback]

lemma components_full (habs : cwd.head? = some 0x2f) (hcwd : 0x5c ∉ cwd)
    (h : (getFullPathNameA cwd lpFileName nBufferLength).2 = some full)
    (hroot : lpFileName.head? ≠ some 0x2f) :
    components 0x2f (names 0x2f cwd) (pathDupUnx full.lpBuffer) =
      components 0x2f (names 0x2f cwd) (pathDupUnx lpFileName) := by
  rw [getFullPathNameA_some h]
  split_ifs with hrel
  · rw [components_relative _ habs hcwd, components_name _ hrel.1 hrel.2, if_neg hroot]
  · rfl

lemma components_full_root (habs : cwd.head? = some 0x2f) (hcwd : 0x5c ∉ cwd)
    (h : (getFullPathNameA cwd lpFileName nBufferLength).2 = some full)
    (hroot : lpFileName.head? = some 0x2f) :
    components 0x2f (names 0x2f cwd) (pathDupUnx full.lpBuffer) =
      names 0x2f cwd ++ components 0x2f (names 0x2f cwd) (pathDupUnx lpFileName) := by
  have hdrv : pathHasDrv lpFileName = false := by
    cases lpFileName with
    | nil => rfl
    | cons c s =>
      obtain rfl : c = 0x2f := Option.some.inj hroot
      exact pathHasDrv_slash s
  have hback : lpFileName.head? ≠ some 0x5c := by
    rw [hroot]
    decide
  rw [getFullPathNameA_some h, if_pos ⟨hback, by simp [hdrv]⟩, components_relative _ habs hcwd,
    components_name _ hback (by simp [hdrv]), if_pos hroot]

/-- The name and the full name denote the same file unless the name starts with a slash, which only
the unix side takes for the root. -/
theorem getFullPathNameA_agrees (cwd lpFileName : CString) (nBufferLength : ℕ)
    (full : FullPathName) (habs : cwd.head? = some 0x2f) (hcwd : 0x5c ∉ cwd)
    (h : (getFullPathNameA cwd lpFileName nBufferLength).2 = some full) :
    components 0x2f (names 0x2f cwd) (pathDupUnx full.lpBuffer) =
        components 0x2f (names 0x2f cwd) (pathDupUnx lpFileName) ↔
      lpFileName.head? ≠ some 0x2f ∨ ∀ c ∈ cwd, c = 0x2f := by
  by_cases hroot : lpFileName.head? = some 0x2f
  · rw [components_full_root habs hcwd h hroot, List.append_left_eq_self, names_eq_nil]
    simp [hroot]
  · simp [components_full habs hcwd h hroot, hroot]

theorem getFullPathNameA_agrees_relative :
    components 0x2f (names 0x2f (ascii "/work")) (pathDupUnx (ascii "\\work\\a\\b/c")) =
        components 0x2f (names 0x2f (ascii "/work")) (pathDupUnx (ascii "a\\b/c")) ↔
      (ascii "a\\b/c").head? ≠ some 0x2f ∨ ∀ c ∈ ascii "/work", c = 0x2f :=
  getFullPathNameA_agrees (ascii "/work") (ascii "a\\b/c") 0x104 ⟨ascii "\\work\\a\\b/c", 8⟩
    (by decide +kernel) (by decide +kernel) (by decide +kernel)

theorem getFullPathNameA_misses_root :
    (getFullPathNameA (ascii "/work") (ascii "/etc/x") 0x104).2 =
        some ⟨ascii "\\work\\/etc/x", 6⟩ ∧
      components 0x2f (names 0x2f (ascii "/work")) (pathDupUnx (ascii "\\work\\/etc/x")) =
        [ascii "work", ascii "etc", ascii "x"] ∧
      components 0x2f (names 0x2f (ascii "/work")) (pathDupUnx (ascii "/etc/x")) =
        [ascii "etc", ascii "x"] := by
  decide +kernel

theorem getFullPathNameA_resolves (habs : cwd.head? = some 0x2f) (hcwd : 0x5c ∉ cwd)
    (h : (getFullPathNameA cwd lpFileName nBufferLength).2 = some full)
    (hroot : lpFileName.head? ≠ some 0x2f) :
    resolve 0x2f 0x2e ((names 0x2f cwd).foldl (enter 0x2e) []) (pathDupUnx full.lpBuffer) =
      resolve 0x2f 0x2e ((names 0x2f cwd).foldl (enter 0x2e) []) (pathDupUnx lpFileName) := by
  rw [← foldl_components, ← foldl_components, components_full habs hcwd h hroot]

end Metroskrew.Dlls
