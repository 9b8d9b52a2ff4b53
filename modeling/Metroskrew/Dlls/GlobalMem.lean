import Metroskrew.Bytes

/-! The heap calls of kernel32. `fresh` is what newly allocated memory holds; there is always enough
of it, and sizes do not wrap. -/

namespace Metroskrew.Dlls

def GMEM_MOVEABLE : UInt32 := 0x2

def GMEM_ZEROINIT : UInt32 := 0x40

def GMEM_INVALID_HANDLE : UInt32 := 0x8000

structure Alloc where
  size : ℕ
  flags : UInt32
  data : List UInt8
  data_length : data.length = size

/-- `memset(data + sizeOld, 0, size - sizeOld)` where the flags ask for it. -/
def zeroInit (uFlags : UInt32) (sizeOld : ℕ) (data : List UInt8) : List UInt8 :=
  if uFlags &&& GMEM_ZEROINIT ≠ 0 then
    data.take sizeOld ++ List.replicate (data.length - sizeOld) 0
  else data

/-- The flags neither call has a case for; they end the program. -/
def unhandledFlags (uFlags : UInt32) : UInt32 := uFlags &&& ~~~GMEM_ZEROINIT &&& ~~~GMEM_MOVEABLE

lemma zeroInit_length (uFlags : UInt32) (sizeOld : ℕ) (data : List UInt8) :
    (zeroInit uFlags sizeOld data).length = data.length := by
  rw [zeroInit]
  split_ifs
  · simp
    omega
  · rfl

variable (fresh : ℕ → UInt8)

def globalAlloc (uFlags : UInt32) (dwBytes : ℕ) : Option Alloc :=
  let data := zeroInit uFlags 0 ((List.range dwBytes).map fresh)
  if unhandledFlags uFlags ≠ 0 then none
  else some ⟨dwBytes, uFlags, data, by simp [data, zeroInit_length]⟩

def globalReAlloc (hMem : Alloc) (dwBytes : ℕ) (uFlags : UInt32) : Option Alloc :=
  let moved := hMem.data.take dwBytes ++ (List.range (dwBytes - hMem.size)).map fresh
  let data := zeroInit uFlags hMem.size moved
  if unhandledFlags uFlags ≠ 0 then none
  else
    some ⟨dwBytes, uFlags, data, by
      rw [zeroInit_length, List.length_append, List.length_take, hMem.data_length]
      simp
      omega⟩

def globalFlags (hMem : Alloc) : UInt32 := hMem.flags

/-- `memcpy(hMem + off, src, size)`: nothing is stored past the end. -/
def Alloc.store (hMem : Alloc) (off : ℕ) (src : List UInt8) : Option Alloc :=
  if h : off + src.length ≤ hMem.size then
    some { hMem with
      data := hMem.data.take off ++ src ++ hMem.data.drop (off + src.length)
      data_length := by
        simp [hMem.data_length]
        omega }
  else none

lemma globalReAlloc_some (hMem : Alloc) {dwBytes : ℕ} {uFlags : UInt32}
    (hflags : unhandledFlags uFlags = 0) (hgrow : hMem.size ≤ dwBytes) :
    ∃ grown, globalReAlloc fresh hMem dwBytes uFlags = some grown ∧ grown.size = dwBytes ∧
      grown.flags = uFlags ∧ grown.data.take hMem.size = hMem.data := by
  refine ⟨_, if_neg (not_not.mpr hflags), rfl, rfl, ?_⟩
  have hall : hMem.data.take dwBytes = hMem.data := by
    apply List.take_of_length_le
    rwa [hMem.data_length]
  simp only [hall, zeroInit, List.take_left' hMem.data_length]
  split_ifs
  · exact List.take_left' hMem.data_length
  · exact List.take_left' hMem.data_length

lemma Alloc.store_some (hMem : Alloc) {off : ℕ} {src : List UInt8}
    (h : off + src.length ≤ hMem.size) :
    ∃ filled, hMem.store off src = some filled ∧ filled.size = hMem.size ∧
      filled.flags = hMem.flags ∧
      filled.data = hMem.data.take off ++ src ++ hMem.data.drop (off + src.length) :=
  ⟨_, dif_pos h, rfl, rfl, rfl⟩

end Metroskrew.Dlls
