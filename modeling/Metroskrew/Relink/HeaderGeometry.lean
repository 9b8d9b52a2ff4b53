import Metroskrew.Relink.Image
import Metroskrew.Relink.RawData

/-! Where in the file the section headers and the data directories are read from. -/

namespace Metroskrew.Relink

variable (f : List UInt8)

def elfanew : ℕ := readU32 f 0x3c

def sizeOfOptionalHeader : ℕ := readU16 f (elfanew f + 0x14)

/-- Where the format has section header `i`: behind the optional header. -/
def sectionHeaderAt (i : ℕ) : ℕ := elfanew f + 24 + sizeOfOptionalHeader f + 40 * i

/-- Where the format has data directory `k`: behind the fields of a 32-bit optional header. -/
def datadirAt (k : ℕ) : ℕ := elfanew f + 24 + 96 + 8 * k

/-- The section header that the format has at an offset, if the file reaches that far. -/
def sectionFrom (f : List UInt8) (baseAddr off : ℕ) : Option PeSection :=
  if off + 40 ≤ f.length then some {
    name := cstr ((f.drop off).take 8)
    vsize := readU32 f (off + 0x08)
    address := baseAddr + readU32 f (off + 0x0c)
    dsize := readU32 f (off + 0x10)
    offset := readU32 f (off + 0x14)
    x := (readU32 f (off + 0x24)).testBit 29
    r := (readU32 f (off + 0x24)).testBit 30
    w := (readU32 f (off + 0x24)).testBit 31 }
  else none

def datadirFrom (f : List UInt8) (off : ℕ) : Option (ℕ × ℕ) :=
  if off + 8 ≤ f.length then some (readU32 f off, readU32 f (off + 4)) else none

/-- The raw data of the section whose header is at `off` holds the address. -/
def HeldFrom (f : List UInt8) (rva off : ℕ) : Prop :=
  readU32 f (off + 0x0c) ≤ rva ∧ rva < readU32 f (off + 0x0c) + readU32 f (off + 0x10)

/-- The three functions take headers and directories from where the format has them in the file that
was opened, whatever bytes `g` stand there. -/
structure HeaderGeometry (f : List UInt8) (file : PeFile) : Prop where
  section_header : ∀ i ≤ file.sectionsNum, sectionHeaderAt f i < 2 ^ 32 → ∀ g,
    peReadSectionHeader { file with f := g } i = sectionFrom g file.baseAddr (sectionHeaderAt f i)
  found_header : ∀ g rva off, peFindFileOffset { file with f := g } rva = some off ↔
    (file.sectionsNum ≠ 0 ∧ sectionHeaderAt f file.sectionsNum ≤ g.length) ∧
      ∃ i < file.sectionsNum, HeldFrom g rva (sectionHeaderAt f i) ∧
        (∀ j < i, ¬ HeldFrom g rva (sectionHeaderAt f j)) ∧
        off = rva - readU32 g (sectionHeaderAt f i + 0x0c) +
          readU32 g (sectionHeaderAt f i + 0x14)
  datadir : ∀ k < file.datadirNum, datadirAt f k < 2 ^ 32 → ∀ g,
    peGetDatadir { file with f := g } k = datadirFrom g (datadirAt f k)

variable {f} {file : PeFile}

lemma peReadSectionHeader_from (file : PeFile) {i : ℕ} (hi : i ≤ file.sectionsNum) :
    peReadSectionHeader file i = sectionFrom file.f file.baseAddr (peSectionHeaderOff file i) := by
  rw [sectionFrom]
  split_ifs with hin
  · have hread : fread file.f (peSectionHeaderOff file i) 0x28 =
        some ((file.f.drop (peSectionHeaderOff file i)).take 0x28) := by
      rw [fread, if_neg]
      omega
    have hsome : ∃ sec, peReadSectionHeader file i = some sec := by
      rw [peReadSectionHeader, hread]
      simp [Nat.not_lt.mpr hi, guard]
    obtain ⟨sec, hsec⟩ := hsome
    obtain ⟨_, hname, hvsize, haddress, hdsize, hoffset, hx, hr, hw⟩ := peReadSectionHeader_some hsec
    rw [hsec, ← hname, ← hvsize, ← haddress, ← hdsize, ← hoffset, ← hx, ← hr, ← hw]
  · have hread : fread file.f (peSectionHeaderOff file i) 0x28 = none := by
      rw [fread, if_pos]
      omega
    rw [peReadSectionHeader, hread]
    simp

lemma peGetDatadir_from (file : PeFile) {k : ℕ} (hk : k < file.datadirNum) :
    peGetDatadir file k = datadirFrom file.f ((file.datadirOff + 8 * k) % 2 ^ 32) := by
  generalize hoff : (file.datadirOff + 8 * k) % 2 ^ 32 = off
  rw [datadirFrom, peGetDatadir]
  split_ifs with hin
  · have hread : fread file.f off 8 = some ((file.f.drop off).take 8) := by
      rw [fread, if_neg]
      omega
    have hfirst : readU32 ((file.f.drop off).take 8) 0 = readU32 file.f (off + 0) :=
      readU32_window file.f (by decide)
    have hsecond : readU32 ((file.f.drop off).take 8) 4 = readU32 file.f (off + 4) :=
      readU32_window file.f (by decide)
    simp only [hoff, hread]
    simp [hk, guard, hfirst, hsecond]
  · have hread : fread file.f off 8 = none := by
      rw [fread, if_pos]
      omega
    simp only [hoff, hread]
    simp

lemma peOpenReadHeader_offsets (h : peOpenReadHeader f = some file) :
    file.f = f ∧ file.datadirOff = (elfanew f + 0x78) % 2 ^ 32 ∧
      file.sectionsOff = (elfanew f + 0x18 + sizeOfOptionalHeader f % 2 ^ 8) % 2 ^ 32 := by
  simp only [peOpenReadHeader, bind, Option.bind_eq_some_iff, Option.some.injEq] at h
  obtain ⟨headerOffB, hoff, header, hheader, _, _, optHeader, _, _, _, rfl⟩ := h
  obtain ⟨rfl, _⟩ := fread_some hoff
  obtain ⟨rfl, _⟩ := fread_some hheader
  have helf : readU32 ((f.drop 0x3c).take 4) 0 = elfanew f := readU32_window f (by decide)
  refine ⟨rfl, by rw [helf], ?_⟩
  simp only [helf, readU16_window f (show 0x14 + 2 ≤ 0x18 by decide)]
  rfl

/-- A header read from one offset is not read from another: the file may end between them. -/
lemma sectionFrom_injective (baseAddr : ℕ) {off off' : ℕ}
    (h : ∀ g, sectionFrom g baseAddr off = sectionFrom g baseAddr off') : off = off' := by
  by_contra hne
  have hshort := h (List.replicate (min off off' + 40) 0)
  rw [sectionFrom, sectionFrom, List.length_replicate] at hshort
  split_ifs at hshort <;> omega

/-- The headers are read where the format has them iff the size of the optional header fits in the
byte that `pe_open_read_header` keeps it in. -/
theorem header_geometry_iff (f : List UInt8) (file : PeFile) (hopen : peOpenReadHeader f = some file)
    (hsum : sectionHeaderAt f 0 < 2 ^ 32) :
    HeaderGeometry f file ↔ sizeOfOptionalHeader f < 2 ^ 8 := by
  obtain ⟨-, hdatadir, hsections⟩ := peOpenReadHeader_offsets hopen
  constructor
  · intro h
    have hfirst : peSectionHeaderOff file 0 = sectionHeaderAt f 0 := by
      apply sectionFrom_injective file.baseAddr
      intro g
      rw [← h.section_header 0 (Nat.zero_le _) hsum g]
      exact (peReadSectionHeader_from { file with f := g } (Nat.zero_le _)).symm
    rw [sectionHeaderAt] at hsum
    rw [peSectionHeaderOff, hsections, sectionHeaderAt] at hfirst
    omega
  · intro hsize
    have hat : ∀ i, file.sectionsOff + 0x28 * i = sectionHeaderAt f i := by
      intro i
      rw [sectionHeaderAt] at hsum ⊢
      rw [hsections, Nat.mod_eq_of_lt hsize]
      omega
    refine ⟨fun i hi hlt g => ?_, fun g rva off => ?_, fun k hk hlt g => ?_⟩
    · rw [peReadSectionHeader_from { file with f := g } hi, peSectionHeaderOff, hat,
        Nat.mod_eq_of_lt hlt]
    · have hheld : ∀ i < file.sectionsNum, Within { file with f := g } i rva 1 ↔
          HeldFrom g rva (sectionHeaderAt f i) := by
        intro i hi
        rw [← hat]
        exact ⟨fun h => ⟨h.lo, h.hi⟩, fun h => ⟨hi, h.1, h.2⟩⟩
      have hpos : ∀ i, filePos { file with f := g } i rva = rva -
          readU32 g (sectionHeaderAt f i + 0x0c) + readU32 g (sectionHeaderAt f i + 0x14) := by
        intro i
        rw [← hat]
        rfl
      rw [peFindFileOffset_iff, SectionTable]
      dsimp only
      rw [hat]
      apply and_congr_right
      intro _
      constructor
      · rintro ⟨i, ⟨hwithin, hfirst⟩, rfl⟩
        refine ⟨i, hwithin.lt, (hheld i hwithin.lt).mp hwithin, fun j hj hheld' => ?_, hpos i⟩
        exact hfirst j hj ((hheld j (hj.trans hwithin.lt)).mpr hheld')
      · rintro ⟨i, hi, hheld', hfirst, rfl⟩
        refine ⟨i, ⟨(hheld i hi).mpr hheld', fun j hj hwithin => ?_⟩, (hpos i).symm⟩
        exact hfirst j hj ((hheld j (hj.trans hi)).mp hwithin)
    · rw [peGetDatadir_from { file with f := g } hk]
      dsimp only
      rw [datadirAt] at hlt ⊢
      rw [hdatadir, show ((elfanew f + 0x78) % 2 ^ 32 + 8 * k) % 2 ^ 32 =
        elfanew f + 24 + 96 + 8 * k by omega]

def optionalImage (optSize : ℕ) : List UInt8 :=
  List.replicate 0x3c 0 ++ word 0x40 ++ peBytes 1 optSize 0x1000 0x400000 [(0, 0), (0, 0), (0, 0)] ++
    sectionBytes (ascii ".text") 4 0x1000 4 0x200 0x60000020

def optionalFile (optSize : ℕ) : PeFile where
  f := optionalImage optSize
  headerOff := 0x40
  datadirOff := 0xb8
  sectionsOff := 0x58 + optSize % 2 ^ 8
  sectionsNum := 1
  entrypoint := 0x1000
  baseAddr := 0x400000
  datadirNum := 3

theorem header_geometry_small : HeaderGeometry (optionalImage 0x78) (optionalFile 0x78) :=
  (header_geometry_iff (optionalImage 0x78) (optionalFile 0x78) (by decide +kernel)
    (by decide +kernel)).mpr (by decide +kernel)

theorem header_geometry_narrowed :
    peOpenReadHeader (optionalImage 0x110) = some (optionalFile 0x110) ∧
      sectionHeaderAt (optionalImage 0x110) 0 = 0x168 ∧
      peSectionHeaderOff (optionalFile 0x110) 0 = 0x68 ∧
      (sectionFrom (optionalImage 0x110) 0x400000 0x168).map PeSection.name = some (ascii ".text") ∧
      (peReadSectionHeader (optionalFile 0x110) 0).map PeSection.name ≠ some (ascii ".text") := by
  decide +kernel

end Metroskrew.Relink
