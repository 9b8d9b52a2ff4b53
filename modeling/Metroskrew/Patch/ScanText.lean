import Metroskrew.Patch.Scan
import Metroskrew.Relink.Image
import Metroskrew.Relink.PeFile

/-! The `.text` definitions `scan_bin` prints, against the section `dump_asm` reads. -/

namespace Metroskrew.Patch

open Metroskrew.Relink

def textName : Region := ⟨0, ascii ".text" ++ [0, 0, 0], by decide⟩

def textFlags : Region := ⟨36, [0x20, 0x00, 0x00, 0x60], by decide⟩

structure TextDefs where
  peTextOff : ℕ
  peTextLen : ℕ
  peTextAddr : ℕ
  deriving Repr, DecidableEq

variable (binary : List UInt8)

/-- `read_u32` in the binary; reading past its end has no result. -/
def readAt (off : ℕ) : Option ℕ := if off + 4 ≤ binary.length then some (readU32 binary off) else none

/-- What `scan_bin` prints about `.text`: nothing without a match. -/
def scanBinText : Option (Option TextDefs) :=
  match scan binary textName [textFlags] 0 with
  | none => some none
  | some textPos => do
    let peTextOff ← readAt binary (textPos + 20)
    let peTextLen ← readAt binary (textPos + 8)
    let peBaseAddr ← readAt binary 0xb4
    let address ← readAt binary (textPos + 12)
    some (some ⟨peTextOff, peTextLen, (peBaseAddr + address) % 2 ^ 32⟩)

variable {binary} {file : PeFile} {num : ℕ} {sec : PeSection}

lemma sizeT_cast {n : ℕ} (h : n < 2 ^ 64) : sizeT n = n := by
  rw [sizeT]
  omega

theorem text_section (hlen : file.f.length < 2 ^ 64) (hsec : peReadSectionHeader file num = some sec)
    (hmatch : scan file.f textName [textFlags] 0 = some (peSectionHeaderOff file num)) :
    sec.name = ascii ".text" ∧ sec.x = true ∧ sec.r = true ∧ sec.w = false := by
  obtain ⟨⟨p, _, hp, hname⟩, hrest⟩ := scan_some hmatch
  have hf := peReadSectionHeader_some hsec
  have hin := hf.inside
  have hplt : p < file.f.length := by
    by_contra hge
    rw [List.drop_eq_nil_of_le (by omega)] at hname
    cases hname
  have hoff : peSectionHeaderOff file num = p := by
    rw [hp, textName, Int.sub_zero, sizeT_cast (by omega)]
  have hflags := hrest textFlags (by simp)
  rw [Region.At, show ((peSectionHeaderOff file num : ℤ) + textFlags.off) =
    (peSectionHeaderOff file num + 0x24 : ℕ) from rfl, sizeT_cast (by omega)] at hflags
  have hword : readU32 file.f (peSectionHeaderOff file num + 0x24) = 0x60000020 := by
    rw [← Nat.add_zero (peSectionHeaderOff file num + 0x24),
      ← readU32_window file.f (show 0 + 4 ≤ textFlags.data.length by decide), hflags]
    decide
  refine ⟨?_, ?_, ?_, ?_⟩
  · rw [hf.name, hoff, show 8 = textName.data.length from rfl, hname]
    decide
  · rw [hf.x, hword]
    decide
  · rw [hf.r, hword]
    decide
  · rw [hf.w, hword]
    decide

/-- `scan_bin` and `dump_asm` agree on the section iff the word at the fixed offset is the image base
the headers give, and the address fits in 32 bits. -/
theorem scanBinText_agrees (f : List UInt8) (file : PeFile) (num : ℕ) (sec : PeSection)
    (hopen : peOpenReadHeader f = some file) (hsec : peReadSectionHeader file num = some sec)
    (hmatch : scan f textName [textFlags] 0 = some (peSectionHeaderOff file num)) :
    scanBinText f = some (some ⟨sec.offset, sec.vsize, sec.address⟩) ↔
      0xb4 + 4 ≤ f.length ∧ readU32 f 0xb4 = readU32 f (readU32 f 0x3c + 0x34) ∧
        readU32 f 0xb4 + readU32 f (peSectionHeaderOff file num + 12) < 2 ^ 32 := by
  obtain ⟨rfl, hheader⟩ := peOpenReadHeader_some hopen
  have hf := peReadSectionHeader_some hsec
  have hin := hf.inside
  have hread : ∀ k, k + 4 ≤ 0x28 → readAt file.f (peSectionHeaderOff file num + k) =
      some (readU32 file.f (peSectionHeaderOff file num + k)) := by
    intro k hk
    rw [readAt, if_pos (by omega)]
  rw [scanBinText, hmatch]
  simp only [hread 20 (by decide), hread 8 (by decide), hread 12 (by decide), bind, Option.bind_some]
  rw [hf.offset, hf.vsize, hf.address, hheader]
  have hbase := readU32_lt file.f 0xb4
  have haddr := readU32_lt file.f (peSectionHeaderOff file num + 12)
  by_cases hlen : 0xb4 + 4 ≤ file.f.length
  · rw [readAt, if_pos hlen]
    simp only [Option.bind_some, Option.some.injEq, TextDefs.mk.injEq, true_and]
    constructor
    · intro h
      refine ⟨hlen, ?_, ?_⟩ <;> omega
    · rintro ⟨_, heq, hlt⟩
      omega
  · rw [readAt, if_neg hlen]
    simp [hlen]

def oneSection (elfanew : ℕ) : List UInt8 :=
  List.replicate 0x3c 0 ++ word elfanew ++ List.replicate (elfanew - 0x40) 0 ++
    peBytes 1 0x78 0x1000 0x400000 [(0, 0), (0, 0), (0, 0)] ++
    sectionBytes (ascii ".text") 4 0x1000 4 (elfanew + 0xb8) 0x60000020 ++ [0x90, 0x90, 0x90, 0xc3]

def oneSectionFile (elfanew : ℕ) : PeFile where
  f := oneSection elfanew
  headerOff := elfanew
  datadirOff := elfanew + 0x78
  sectionsOff := elfanew + 0x90
  sectionsNum := 1
  entrypoint := 0x1000
  baseAddr := 0x400000
  datadirNum := 3

def oneSectionText (elfanew : ℕ) : PeSection :=
  ⟨ascii ".text", 4, 0x401000, 4, elfanew + 0xb8, true, false, true⟩

theorem scanBinText_misses_base :
    peOpenReadHeader (oneSection 0x40) = some (oneSectionFile 0x40) ∧
      peReadSectionHeader (oneSectionFile 0x40) 0 = some (oneSectionText 0x40) ∧
      scan (oneSection 0x40) textName [textFlags] 0 =
        some (peSectionHeaderOff (oneSectionFile 0x40) 0) ∧
      scanBinText (oneSection 0x40) = some (some ⟨0xf8, 4, 0x1003⟩) ∧
      (oneSectionText 0x40).address = 0x401000 := by
  decide +kernel

theorem scanBinText_agrees_at_0x80 :
    scanBinText (oneSection 0x80) = some (some ⟨0x138, 4, 0x401000⟩) :=
  (scanBinText_agrees (oneSection 0x80) (oneSectionFile 0x80) 0 (oneSectionText 0x80)
    (by decide +kernel) (by decide +kernel) (by decide +kernel)).mpr (by decide +kernel)

end Metroskrew.Patch
