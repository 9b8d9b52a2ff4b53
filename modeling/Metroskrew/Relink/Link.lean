import Metroskrew.Patch.Hooks
import Metroskrew.Relink.Assembled
import Metroskrew.Relink.EmittedOnce

/-! The program that link.ld.in puts together from the dump of an executable, its patched text and the
rest of what is linked. What it holds at the addresses of the executable's sections is what the
executable holds there. -/

namespace Metroskrew.Relink

open Metroskrew.Library Metroskrew.Library.Linking Metroskrew.Library.Window Metroskrew.Patch.PatchMacros
open Metroskrew.Patch.GasText

/-- The sections of the executable that link.ld.in has an address for. -/
def ldSections : List CString :=
  [ascii "text", ascii "exc", ascii "rdata", ascii "data", ascii "rsrc", ascii "CRT",
    ascii "idata", ascii "bss"]

variable (f : List UInt8) (out : AsmDump) (text : List UInt8) (table : ℕ)
  (rest : List (Placement OutByte))

/-- The input of an output section of link.ld.in. For the text it is `.patch_pe_text`, not what the
dump says. -/
def ldInput (name : CString) : List OutByte :=
  if name = ascii "text" then text.map .raw
  else (gas f).contents (peSection name) firstSection out.lines

/-- `.pe_name pe_name_addr : { input }`; ld stops where the symbol has no value. -/
def ldOutput (name : CString) : Option (Placement OutByte) :=
  (assigned out.lines (peAddr name)).map fun address => ⟨address, ldInput f out text name⟩

/-- `table` is the address chosen for `.pe_rsrc_strings`, which the script does not name. `rest` is what
the script that link.ld.in is inserted in places: the other objects, libc, and sections of the dump
that neither script names. -/
def relink : Option (List (Placement OutByte)) :=
  if out.lines.all (Directive.accepted f) then do
    let sections ← ldSections.mapM (ldOutput f out text)
    some (sections ++
      ⟨table, (gas f).contents rsrcSection firstSection out.lines⟩ :: rest)
  else none

/-! ### Where the sections go -/

/-- The sections have names and room of their own, also beside the rest of the program. What the script
places fits them, no block of strings is empty, and the blocks of the text that are patched stand
clear of each other. -/
structure Linkable (t : Tables) (file : PeFile) (uses : List Use) (text : List UInt8) (table : ℕ)
    (rest : List (Placement OutByte)) : Prop where
  names : ∀ x y s u, SectionAt file x s → SectionAt file y u → s.short = u.short → x = y
  apart : ∀ x y s u a, x ≠ y → SectionAt file x s → SectionAt file y u → Holds s a → ¬ Holds u a
  fits : ∀ x s, SectionAt file x s → s.short ∈ ldSections → s.short ≠ ascii "text" → Fits t s
  full : ∀ y b, ¬ BlockAt t y b 0
  spaced : ∀ x s, SectionAt file x s → s.short = ascii "text" →
    Spaced file.f.length s.offset (s.offset + s.vsize) uses
  rest : ∀ p ∈ rest, ∀ a, p.Covers a →
    (∀ x s, SectionAt file x s → s.short ∈ ldSections → ¬ Holds s a) ∧
      (a < table ∨ table + (8 * t.rsrcStrings.num + 4) ≤ a)
  table : ∀ x s a, SectionAt file x s → s.short ∈ ldSections → Holds s a →
    a < table ∨ table + (8 * t.rsrcStrings.num + 4) ≤ a
  text : ∀ x s, SectionAt file x s → s.short = ascii "text" →
    gasPeText (byteAt file.f) file.f.length s.offset s.vsize uses = some text

variable {t : Tables} {win : Bool} {sec : PeSection} {file : PeFile} {out : AsmDump} {f : List UInt8}
variable {uses : List Use} {text : List UInt8} {table : ℕ} {rest placed : List (Placement OutByte)}

lemma Linkable.input (hl : Linkable t file uses text table rest) (h : Dumped t win file out) {x : ℕ}
    {s : SectionDump} (hx : out.sections[x]? = some s) (hld : s.sec.short ∈ ldSections) :
    ldInput file.f out text s.sec.short =
      if s.sec.short = ascii "text" then text.map .raw
      else window (sectionByte (byteAt file.f) t win s.sec) 0 s.sec.vsize := by
  obtain ⟨hsec, hrun⟩ := h.section_of hx
  rw [ldInput]
  split_ifs with htext
  · rfl
  · have hbody := (h.contents (f := file.f) hl.names (chunk_mem (List.mem_of_getElem? hx))
      (first_ne_section _)).1
    rw [h.gas_contents hl.full]
    refine hbody.trans ?_
    exact run_expand (hl.fits x _ hsec hld htext) hrun le_rfl (Nat.zero_le _) (.inl (Nat.zero_le _))
      (fun y a _ hlo hlt => by omega)

lemma Linkable.text_eq (hl : Linkable t file uses text table rest) {x : ℕ} (hsec : SectionAt file x sec)
    (htext : sec.short = ascii "text") :
    text = window (patchedByte (byteAt file.f) uses) sec.offset sec.vsize :=
  Option.some.inj ((hl.text x sec hsec htext).symm.trans (gasPeText_eq (hl.spaced x sec hsec htext)))

lemma Linkable.input_length (hl : Linkable t file uses text table rest) (h : Dumped t win file out)
    {x : ℕ} {s : SectionDump} (hx : out.sections[x]? = some s) (hld : s.sec.short ∈ ldSections) :
    (ldInput file.f out text s.sec.short).length = s.sec.vsize := by
  rw [hl.input h hx hld]
  split_ifs with htext
  · rw [List.length_map, hl.text_eq (h.section_of hx).1 htext, window_length]
  · exact window_length _ _ _

/-- What the script places is a section of the executable, at its address. -/
lemma Dumped.output (h : Dumped t win file out)
    (hnames : ∀ x y s u, SectionAt file x s → SectionAt file y u → s.short = u.short → x = y)
    {name : CString} {p : Placement OutByte} (hp : ldOutput f out text name = some p) :
    ∃ (x : ℕ) (s : SectionDump), out.sections[x]? = some s ∧ s.sec.short = name ∧
      p = ⟨s.sec.address, ldInput f out text name⟩ := by
  obtain ⟨a, ha, rfl⟩ := Option.map_eq_some_iff.mp hp
  by_cases hex : ∃ s ∈ out.sections, s.sec.short = name
  · obtain ⟨s, hs, rfl⟩ := hex
    obtain ⟨x, hx⟩ := List.mem_iff_getElem?.mp hs
    rw [h.assigned hnames hx] at ha
    cases ha
    exact ⟨x, s, hx, rfl, rfl⟩
  · exfalso
    have hnone : Relink.assigned out.lines (peAddr name) = none := by
      rw [Relink.assigned, List.findSome?_eq_none_iff]
      intro d hd
      simp only [AsmDump.lines, h.start, h.strings, List.mem_append, List.mem_flatMap] at hd
      rcases hd with (hd | ⟨s, hs, hd⟩) | hd
      · rcases List.mem_cons.mp hd with rfl | hd
        · rfl
        · rw [List.mem_singleton.mp hd]
          simp [peAddr_ne_start]
      · obtain ⟨x, hx⟩ := List.mem_iff_getElem?.mp hs
        rcases hd with hd | hd
        · have hassign := assigned_header win s.sec (peAddr name)
          rw [if_neg fun he => hex ⟨s, hs, peAddr_inj he⟩, Relink.assigned,
            List.findSome?_eq_none_iff] at hassign
          exact hassign d (h.header s hs ▸ hd)
        · have := run_inner (h.section_of hx).2 d hd
          cases d <;> first | rfl | cases this
      · simp only [rsrcTable, List.cons_append, List.nil_append, List.mem_cons, List.mem_append,
          List.mem_map, List.not_mem_nil, or_false] at hd
        rcases hd with rfl | rfl | rfl | ⟨x, _, rfl⟩ | rfl <;> rfl
    rw [hnone] at ha
    cases ha

lemma tableBytes_eq (h : Dumped t win file out) (hl : Linkable t file uses text table rest) :
    (gas f).contents rsrcSection firstSection out.lines = expand (byteAt f) (rsrcTable t).tail := by
  rw [h.gas_contents hl.full]
  exact (h.contents hl.names
    (List.mem_append_right _ List.mem_cons_self : rsrcChunk t ∈ out.chunks t)
    (show firstSection ≠ rsrcSection by decide)).1

lemma tableBytes_length (h : Dumped t win file out) (hl : Linkable t file uses text table rest) :
    ((gas f).contents rsrcSection firstSection out.lines).length = 8 * t.rsrcStrings.num + 4 := by
  rw [tableBytes_eq h hl]
  simp [rsrcTable, expand, Directive.expand, longBytes, symbolBytes, List.flatMap_map]
  omega

/-! ### The program -/

/-- What `relink` gives is there: the sections of the script, the table and the rest. -/
lemma relink_some (h : relink f out text table rest = some placed) :
    ∃ sections, placed = sections ++ ⟨table, (gas f).contents rsrcSection firstSection out.lines⟩ :: rest ∧
      ldSections.map (ldOutput f out text) = sections.map some := by
  unfold relink at h
  split_ifs at h
  obtain ⟨sections, hsections, hplaced⟩ := Option.bind_eq_some_iff.mp h
  obtain rfl := Option.some.inj hplaced
  exact ⟨sections, rfl, Patch.Hooks.map_of_option_mapM hsections⟩

lemma mapM_some {α β : Type} {g : α → Option β} {xs : List α} (h : ∀ x ∈ xs, ∃ y, g x = some y) :
    ∃ ys, xs.mapM g = some ys := by
  induction xs with
  | nil => exact ⟨[], rfl⟩
  | cons x xs ih =>
    obtain ⟨y, hy⟩ := h x List.mem_cons_self
    obtain ⟨ys, hys⟩ := ih fun x' hx' => h x' (List.mem_cons_of_mem x hx')
    exact ⟨y :: ys, by rw [List.mapM_cons, hy, hys]; rfl⟩

/-- It links when the counts are in the file and the dump has every section of the script. -/
lemma relink_isSome (haccepted : out.lines.all (Directive.accepted f) = true)
    (hassigned : ∀ name ∈ ldSections, (assigned out.lines (peAddr name)).isSome = true) :
    ∃ placed, relink f out text table rest = some placed := by
  have houtputs : ∀ name ∈ ldSections, ∃ p, ldOutput f out text name = some p := by
    intro name hname
    obtain ⟨a, ha⟩ := Option.isSome_iff_exists.mp (hassigned name hname)
    exact ⟨_, by rw [ldOutput, ha, Option.map_some]⟩
  obtain ⟨sections, hsections⟩ := mapM_some houtputs
  rw [relink, if_pos haccepted, hsections]
  exact ⟨_, rfl⟩

/-- The sections of the executable in the program. -/
lemma Dumped.sections (h : Dumped t win file out)
    (hnames : ∀ x y s u, SectionAt file x s → SectionAt file y u → s.short = u.short → x = y)
    {sections : List (Placement OutByte)}
    (hsections : ldSections.map (ldOutput f out text) = sections.map some) (p : Placement OutByte) :
    p ∈ sections ↔ ∃ (x : ℕ) (s : SectionDump), out.sections[x]? = some s ∧ s.sec.short ∈ ldSections ∧
      p = ⟨s.sec.address, ldInput f out text s.sec.short⟩ := by
  have hmem : p ∈ sections ↔ ∃ name ∈ ldSections, ldOutput f out text name = some p := by
    rw [← List.mem_map, hsections, List.mem_map_of_injective (Option.some_injective _)]
  rw [hmem]
  constructor
  · rintro ⟨name, hname, hp⟩
    obtain ⟨x, s, hx, rfl, rfl⟩ := h.output hnames hp
    exact ⟨x, s, hx, hname, rfl⟩
  · rintro ⟨x, s, hx, hld, rfl⟩
    refine ⟨s.sec.short, hld, ?_⟩
    rw [ldOutput, h.assigned hnames hx, Option.map_some]

/-- An address of a section that the script places holds what is placed for that section. -/
lemma Linkable.memory (hl : Linkable t file uses text table rest) (h : Dumped t win file out)
    (hplaced : relink file.f out text table rest = some placed) {x : ℕ}
    {s : SectionDump} (hx : out.sections[x]? = some s) (hld : s.sec.short ∈ ldSections) {i : ℕ}
    (hi : i < s.sec.vsize) :
    memory placed (s.sec.address + i) = (ldInput file.f out text s.sec.short)[i]? := by
  obtain ⟨sections, rfl, hsections⟩ := relink_some hplaced
  obtain ⟨hsec, _⟩ := h.section_of hx
  have hlen := hl.input_length h hx hld
  have hold : Holds s.sec (s.sec.address + i) := ⟨Nat.le_add_right _ _, by omega⟩
  refine memory_of_mem (p := ⟨s.sec.address, ldInput file.f out text s.sec.short⟩) ?_ (hlen ▸ hi) ?_
  · exact List.mem_append_left _ ((h.sections hl.names hsections _).mpr ⟨x, s, hx, hld, rfl⟩)
  · intro q hq hcovers
    rcases List.mem_append.mp hq with hq | hq
    · obtain ⟨y, u, hy, hname, rfl⟩ := (h.sections hl.names hsections q).mp hq
      have hulen := hl.input_length h hy hname
      by_cases hxy : y = x
      · subst hxy
        obtain rfl : u = s := Option.some.inj (hy.symm.trans hx)
        rfl
      · refine absurd hold (hl.apart y x _ _ _ hxy (h.section_of hy).1 hsec ⟨hcovers.1, ?_⟩)
        exact hulen ▸ hcovers.2
    · rcases List.mem_cons.mp hq with rfl | hq
      · obtain ⟨hlo, hhi⟩ := hcovers
        rw [tableBytes_length h hl] at hhi
        have := hl.table x s.sec _ hsec hld hold
        dsimp only at hlo hhi
        omega
      · exact absurd hold ((hl.rest q hq _ hcovers).1 x s.sec hsec hld)

/-- So does an address of the table of string blocks. -/
lemma Linkable.table_memory (hl : Linkable t file uses text table rest) (h : Dumped t win file out)
    (hplaced : relink file.f out text table rest = some placed) {j : ℕ}
    (hj : j < 8 * t.rsrcStrings.num + 4) :
    Linking.memory placed (table + j) = (expand (byteAt file.f) (rsrcTable t).tail)[j]? := by
  obtain ⟨sections, rfl, hsections⟩ := relink_some hplaced
  have hlen := tableBytes_length (f := file.f) h hl
  have hbody := tableBytes_eq (f := file.f) h hl
  rw [← hbody]
  refine memory_of_mem (p := ⟨table, (gas file.f).contents rsrcSection firstSection out.lines⟩)
    (List.mem_append_right _ List.mem_cons_self) (hlen ▸ hj) ?_
  intro q hq hcovers
  rcases List.mem_append.mp hq with hq | hq
  · obtain ⟨y, u, hy, hname, rfl⟩ := (h.sections hl.names hsections q).mp hq
    have hulen := hl.input_length h hy hname
    have := hl.table y u.sec (table + j) (h.section_of hy).1 hname ⟨hcovers.1, hulen ▸ hcovers.2⟩
    omega
  · rcases List.mem_cons.mp hq with rfl | hq
    · rfl
    · have := (hl.rest q hq _ hcovers).2
      dsimp only at this
      omega

lemma Linkable.rest_memory (hl : Linkable t file uses text table rest) (h : Dumped t win file out)
    (hplaced : relink file.f out text table rest = some placed) {a : ℕ}
    (hno : ∀ x s, SectionAt file x s → s.short ∈ ldSections → ¬ Holds s a)
    (htable : a < table ∨ table + (8 * t.rsrcStrings.num + 4) ≤ a) :
    Linking.memory placed a = Linking.memory rest a := by
  obtain ⟨sections, rfl, hsections⟩ := relink_some hplaced
  rw [List.append_cons]
  apply memory_append
  intro p hp hcovers
  rcases List.mem_append.mp hp with hp | hp
  · obtain ⟨y, u, hy, hname, rfl⟩ := (h.sections hl.names hsections p).mp hp
    have hlen := hl.input_length h hy hname
    exact hno y _ (h.section_of hy).1 hname ⟨hcovers.1, hlen ▸ hcovers.2⟩
  · rw [List.mem_singleton.mp hp] at hcovers
    obtain ⟨hlo, hhi⟩ := hcovers
    rw [tableBytes_length h hl] at hhi
    dsimp only at hlo hhi
    omega

lemma Linkable.section_memory (hl : Linkable t file uses text table rest)
    (h : Dumped t win file out) (hplaced : relink file.f out text table rest = some placed) {x : ℕ}
    {s : PeSection} {i : ℕ} (hsec : SectionAt file x s) (hld : s.short ∈ ldSections)
    (htext : s.short ≠ ascii "text") (hi : i < s.vsize) :
    Linking.memory placed (s.address + i) = some (sectionByte (byteAt file.f) t win s i) := by
  obtain ⟨u, hx, rfl⟩ := h.dump_of hsec
  rw [hl.memory h hplaced hx hld hi, hl.input h hx hld, if_neg htext, window_getElem? _ hi, Nat.zero_add]

lemma Linkable.text_memory (hl : Linkable t file uses text table rest) (h : Dumped t win file out)
    (hplaced : relink file.f out text table rest = some placed) {x : ℕ} {s : PeSection} {i : ℕ}
    (hsec : SectionAt file x s) (htext : s.short = ascii "text") (hi : i < s.vsize) :
    Linking.memory placed (s.address + i) =
      some (.raw (patchedByte (byteAt file.f) uses (s.offset + i))) := by
  obtain ⟨u, hx, rfl⟩ := h.dump_of hsec
  have hld : u.sec.short ∈ ldSections := htext ▸ List.mem_cons_self
  rw [hl.memory h hplaced hx hld hi, hl.input h hx hld, if_pos htext, hl.text_eq hsec htext,
    List.getElem?_map, window_getElem? _ hi]
  rfl

/-- The relinked program holds, at every address of a section that link.ld.in places, what the
executable holds there, but for the hooks in the text; every other address holds what the rest of
the program has there. -/
theorem relink_image (win : Bool) (file : PeFile) (t : Tables) (out : AsmDump) (uses : List Use)
    (text : List UInt8) (table : ℕ) (rest placed : List (Placement OutByte))
    (ht : readTables file = .ok t) (hout : dumpAsm win file = .ok out)
    (hl : Linkable t file uses text table rest)
    (hplaced : relink file.f out text table rest = some placed) :
    (∀ x s i, SectionAt file x s → s.short ∈ ldSections → s.short ≠ ascii "text" → i < s.vsize →
      memory placed (s.address + i) = some (sectionByte (byteAt file.f) t win s i)) ∧
    (∀ x s i, SectionAt file x s → s.short = ascii "text" → i < s.vsize →
      (∀ u ∈ uses, u.covers (s.offset + i) →
        memory placed (s.address + i) = some (.raw (u.byte (s.offset + i)))) ∧
      ((∀ u ∈ uses, ¬ u.covers (s.offset + i)) → s.vsize ≤ s.dsize →
        (∀ y a, SlotAt t y a → ¬ Covers s i a) →
        memory placed (s.address + i) = some (sectionByte (byteAt file.f) t win s i))) ∧
    ∀ a, (∀ x s, SectionAt file x s → s.short ∈ ldSections → ¬ Holds s a) →
      (a < table ∨ table + (8 * t.rsrcStrings.num + 4) ≤ a) → memory placed a = memory rest a := by
  have h := dumpAsm_dumped ht hout
  refine ⟨?_, ?_, ?_⟩
  · exact fun x s i hsec hld htext hi => hl.section_memory h hplaced hsec hld htext hi
  · intro x s i hsec htext hi
    have hbyte := hl.text_memory h hplaced hsec htext hi
    constructor
    · intro v hv hcovers
      rw [hbyte, patchedByte_block (hl.spaced x s hsec htext).ordered hv hcovers]
    · intro hnone hraw hslots
      rw [hbyte, patchedByte_outside hnone, sectionByte_plain hslots, fileByte, if_pos (by omega)]
  · exact fun a hno htable => hl.rest_memory h hplaced hno htable

section Startup

open Metroskrew.Patch.Hooks

def startupFile : PeFile where
  f := startupImage
  headerOff := 0x80
  datadirOff := 0xf8
  sectionsOff := 0x110
  sectionsNum := 8
  entrypoint := 0x1000
  baseAddr := 0x400000
  datadirNum := 3

def startupTables : Tables where
  file := startupFile
  exports := ⟨0x3038, 2, 1, [0x403050, 0x403054], [0x303a, 0]⟩
  imports := ⟨2, 2, [0x407000, 0x407004], [0x7040, 0x7040], [0x7046, 0x704a]⟩
  rsrcStrings := ⟨2, [7, 9], [0x405088, 0x4050ac], [36, 36]⟩

def startupSections : List PeSection :=
  [⟨ascii ".text", 0x81, 0x401000, 0x81, 0x250, true, false, true⟩,
    ⟨ascii ".exc", 4, 0x402000, 4, 0x2d1, true, false, false⟩,
    ⟨ascii ".rdata", 0x58, 0x403000, 0x58, 0x2d5, true, false, false⟩,
    ⟨ascii ".data", 0x10, 0x404000, 0x10, 0x32d, true, true, false⟩,
    ⟨ascii ".rsrc", 0xd4, 0x405000, 0xd4, 0x33d, true, false, false⟩,
    ⟨ascii ".CRT", 4, 0x406000, 4, 0x411, true, false, false⟩,
    ⟨ascii ".idata", 0x4c, 0x407000, 0x4c, 0x415, true, true, false⟩,
    ⟨ascii ".bss", 0x20, 0x408000, 0, 0, true, true, false⟩]

def startupBodies : List (List (ℕ × Directive)) :=
  [[(0x81, .incbin 0x250 0x81)],
    [(4, .incbin 0x2d1 4)],
    [(0x50, .incbin 0x2d5 0x50), (0x50, .globl (ascii "_d_0")), (0x50, .label (ascii "_d_0")),
      (0x50, .globl (ascii "g")), (0x50, .label (ascii "g")), (0x54, .incbin 0x325 4),
      (0x54, .globl (ascii "_d_1")), (0x54, .label (ascii "_d_1")), (0x58, .incbin 0x329 4)],
    [(0x10, .incbin 0x32d 0x10)],
    [(0x88, .incbin 0x33d 0x88), (0x88, .rsrcString 7 0x3c5 36), (0xac, .rsrcString 9 0x3e9 36),
      (0xd4, .incbin 0x40d 4)],
    [(4, .incbin 0x411 4)],
    [(0, .long (ascii "f")), (4, .long (ascii "h")), (0x4c, .incbin 0x41d 0x44)],
    [(0x20, .zero 0x20)]]

def startupDump : AsmDump where
  start := [.globl (ascii "pe_start"), .assign (ascii "pe_start") 0x401000]
  sections := startupSections.zipWith (fun s body => ⟨s, sectionHeader false s, body⟩) startupBodies
  strings := rsrcTable startupTables

/-- The functions and variables that are brought in. -/
def startupRest : List (Placement OutByte) :=
  [⟨0x410000, List.replicate 0x30 (.raw 0xc3)⟩, ⟨0x411000, List.replicate 8 (.raw 0)⟩]

/-- What `dump` reads of the image, and what it writes. -/
lemma startup_read : readTables startupFile = .ok startupTables ∧
    dumpAsm false startupFile = .ok startupDump ∧
    ∀ k < 8, peReadSectionHeader startupFile k = startupSections[k]? := by decide +kernel

lemma startup_sectionAt {x : ℕ} {s : PeSection} (h : SectionAt startupFile x s) :
    startupSections[x]? = some s := by
  rw [← startup_read.2.2 x h.1, h.2]

lemma startup_section {k : ℕ} (hk : k < 8) :
    SectionAt startupFile k (startupSections.getD k textSection) := by
  have hlen : k < startupSections.length := hk
  refine ⟨hk, ?_⟩
  rw [startup_read.2.2 k hk, List.getD_eq_getElem?_getD, List.getElem?_eq_getElem hlen, Option.getD_some]

lemma startup_order : startupSections.Pairwise fun s u => s.address + s.vsize ≤ u.address := by
  decide

lemma startup_names : startupSections.Pairwise fun s u => s.short ≠ u.short := by decide

/-- What holds of any two sections of the image in their order. -/
lemma startup_pair {r : PeSection → PeSection → Prop} (hr : startupSections.Pairwise r) {x y : ℕ}
    {s u : PeSection} (hs : SectionAt startupFile x s) (hu : SectionAt startupFile y u)
    (hne : x ≠ y) : r s u ∨ r u s := by
  obtain ⟨hx, rfl⟩ := List.getElem?_eq_some_iff.mp (startup_sectionAt hs)
  obtain ⟨hy, rfl⟩ := List.getElem?_eq_some_iff.mp (startup_sectionAt hu)
  rcases Nat.lt_or_gt_of_ne hne with hlt | hlt
  · exact .inl (List.pairwise_iff_getElem.mp hr x y hx hy hlt)
  · exact .inr (List.pairwise_iff_getElem.mp hr y x hy hx hlt)

/-- The two slots and the two blocks of the image. -/
lemma startup_itemAt {i : ℕ ⊕ ℕ} {a n : ℕ} (h : ItemAt startupTables i a n) :
    (i = .inl 0 ∧ a = 0x407000 ∧ n = 4 ∨ i = .inl 1 ∧ a = 0x407004 ∧ n = 4) ∨
      i = .inr 0 ∧ a = 0x405088 ∧ n = 36 ∨ i = .inr 1 ∧ a = 0x4050ac ∧ n = 36 := by
  cases i with
  | inl x =>
    obtain ⟨hx, rfl⟩ := h
    match x, hx with
    | 0, hx => exact .inl (.inl ⟨rfl, (Option.some.inj hx).symm, rfl⟩)
    | 1, hx => exact .inl (.inr ⟨rfl, (Option.some.inj hx).symm, rfl⟩)
    | _ + 2, hx => cases hx
  | inr y =>
    obtain ⟨⟨haddr, hsize⟩, -⟩ := h
    match y, haddr, hsize with
    | 0, haddr, hsize => exact .inr (.inl ⟨rfl, (Option.some.inj haddr).symm, hsize.symm⟩)
    | 1, haddr, hsize => exact .inr (.inr ⟨rfl, (Option.some.inj haddr).symm, hsize.symm⟩)
    | _ + 2, haddr, _ => cases haddr

lemma startup_apart {x y : ℕ} {s u : PeSection} {a : ℕ} (hne : x ≠ y)
    (hs : SectionAt startupFile x s) (hu : SectionAt startupFile y u) (hold : Holds s a) :
    ¬ Holds u a := by
  rintro ⟨hlo, hhi⟩
  obtain ⟨hlo', hhi'⟩ := hold
  rcases startup_pair startup_order hs hu hne with hle | hle
  · omega
  · omega

lemma startup_placed : Placed startupTables startupFile := by
  refine ⟨fun x y s u a hne hs hu hold => startup_apart hne hs hu hold, ?_, ?_⟩
  · intro i j a b n m hne hi hj
    rcases startup_itemAt hi with (⟨rfl, rfl, rfl⟩ | ⟨rfl, rfl, rfl⟩) | ⟨rfl, rfl, rfl⟩ | ⟨rfl, rfl, rfl⟩ <;>
      rcases startup_itemAt hj with (⟨rfl, rfl, rfl⟩ | ⟨rfl, rfl, rfl⟩) | ⟨rfl, rfl, rfl⟩ | ⟨rfl, rfl, rfl⟩ <;>
      first | omega | exact absurd rfl hne
  · intro i a n hi
    have hrsrc := startup_section (show 4 < 8 by decide)
    have hidata := startup_section (show 6 < 8 by decide)
    rcases startup_itemAt hi with (⟨_, rfl, rfl⟩ | ⟨_, rfl, rfl⟩) | ⟨_, rfl, rfl⟩ | ⟨_, rfl, rfl⟩
    · exact ⟨6, _, hidata, by decide, by decide⟩
    · exact ⟨6, _, hidata, by decide, by decide⟩
    · exact ⟨4, _, hrsrc, by decide, by decide⟩
    · exact ⟨4, _, hrsrc, by decide, by decide⟩

lemma startup_fits {x : ℕ} {s : PeSection} (hs : SectionAt startupFile x s) : Fits startupTables s := by
  have hmem := List.mem_of_getElem? (startup_sectionAt hs)
  have hends : startupSections.all fun s => s.address + s.vsize ∉
      [0x407000, 0x407004, 0x405088, 0x4050ac] := by decide
  have hraws : startupSections.all fun s => s.vsize ≤ s.dsize ∨ 0x4050ac < s.address := by decide
  have hend : ∀ i a n, ItemAt startupTables i a n → a ≠ s.address + s.vsize := by
    intro i a n hi ha
    have := List.all_eq_true.mp hends s hmem
    rcases startup_itemAt hi with (⟨_, rfl, _⟩ | ⟨_, rfl, _⟩) | ⟨_, rfl, _⟩ | ⟨_, rfl, _⟩ <;>
      simp [← ha] at this
  refine ⟨startup_placed.tidy hs, hend, ?_⟩
  intro y b n hy hn hvisits
  have hne := hend (.inr y) b n ⟨hy, hn⟩
  have hlt : b < s.address + s.vsize := lt_of_le_of_ne hvisits.2 hne
  have hinside := (startup_placed.tidy hs).inside (.inr y) b n ⟨hy, hn⟩ hvisits.1 hlt
  have hb : b ≤ 0x4050ac := by
    rcases startup_itemAt (i := .inr y) ⟨hy, hn⟩ with (⟨h, _⟩ | ⟨h, _⟩) | ⟨_, rfl, _⟩ | ⟨_, rfl, _⟩
    · cases h
    · cases h
    · decide
    · exact le_rfl
  have hraw := hvisits.1
  have := of_decide_eq_true (List.all_eq_true.mp hraws s hmem)
  omega

lemma startup_text {x : ℕ} {s : PeSection} (hs : SectionAt startupFile x s)
    (htext : s.short = ascii "text") : s.offset = 0x250 ∧ s.vsize = 0x81 := by
  have hfirst := startup_section (show 0 < 8 by decide)
  obtain rfl : x = 0 := by
    by_contra hne
    have hshort : (startupSections.getD 0 textSection).short = ascii "text" := by decide
    rcases startup_pair startup_names hs hfirst hne with h | h
    · exact h (htext.trans hshort.symm)
    · exact h (hshort.trans htext.symm)
  obtain rfl := Option.some.inj (hs.2.symm.trans hfirst.2)
  decide

lemma startup_below {x : ℕ} {s : PeSection} {a : ℕ} (hs : SectionAt startupFile x s) (hold : Holds s a) :
    a < 0x410000 := by
  have hall : startupSections.all fun s => s.address + s.vsize ≤ 0x410000 := by decide
  have := of_decide_eq_true (List.all_eq_true.mp hall s (List.mem_of_getElem? (startup_sectionAt hs)))
  exact lt_of_lt_of_le hold.2 this

lemma startup_linkable {text : List UInt8}
    (htext : gasPeText (byteAt startupImage) startupImage.length 0x250 0x81 startupUses = some text) :
    Linkable startupTables startupFile startupUses text 0x420000 startupRest where
  names x y s u hs hu he := by
    by_contra hne
    rcases startup_pair startup_names hs hu hne with h | h
    · exact h he
    · exact h he.symm
  apart x y s u a hne hs hu hold := startup_apart hne hs hu hold
  fits x s hs _ _ := startup_fits hs
  full y b h := by
    obtain ⟨haddr, hsize⟩ := h
    match y, haddr, hsize with
    | 0, _, hsize => cases hsize
    | 1, _, hsize => cases hsize
    | _ + 2, haddr, _ => cases haddr
  spaced x s hs hshort := by
    obtain ⟨hoff, hsize⟩ := startup_text hs hshort
    rw [hoff, hsize]
    exact startup_spaced
  rest p hp a hcovers := by
    have hrange : 0x410000 ≤ a ∧ a < 0x420000 := by
      rcases List.mem_cons.mp hp with rfl | hp
      · obtain ⟨hlo, hhi⟩ := hcovers
        simp at hlo hhi
        omega
      · rw [List.mem_singleton.mp hp] at hcovers
        obtain ⟨hlo, hhi⟩ := hcovers
        simp at hlo hhi
        omega
    refine ⟨fun x s hs _ hold => ?_, .inl hrange.2⟩
    have := startup_below hs hold
    omega
  table x s a hs _ hold := by
    have := startup_below hs hold
    exact .inl (by omega)
  text x s hs hshort := by
    obtain ⟨hoff, hsize⟩ := startup_text hs hshort
    rw [hoff, hsize]
    exact htext

lemma startup_text_made : ∃ text, gasPeText (byteAt startupImage) startupImage.length 0x250 0x81
    startupUses = some text := ⟨_, gasPeText_eq startup_spaced⟩

lemma startup_links (text : List UInt8) :
    ∃ placed, relink startupImage startupDump text 0x420000 startupRest = some placed := by
  have hall : startupDump.lines.all (Directive.accepted startupImage) = true ∧
      ldSections.all (fun name => (assigned startupDump.lines (peAddr name)).isSome) = true := by
    decide +kernel
  exact relink_isSome hall.1 (List.all_eq_true.mp hall.2)

/-- The code that is put at `getenv`, the slot of `h`, and what is brought in for the code to jump to. -/
theorem relink_image_startup : ∃ text placed, dumpAsm false startupFile = .ok startupDump ∧
    relink startupImage startupDump text 0x420000 startupRest = some placed ∧
      memory placed 0x401071 = some (.raw 0xe9) ∧ memory placed 0x407004 = some (.sym (ascii "h") 0) ∧
      memory placed 0x410000 = some (.raw 0xc3) := by
  obtain ⟨text, htext⟩ := startup_text_made
  obtain ⟨placed, hplaced⟩ := startup_links text
  have hl := startup_linkable htext
  obtain ⟨hothers, hhooks, hrest⟩ := relink_image false startupFile startupTables startupDump startupUses
    text 0x420000 startupRest placed startup_read.1 startup_read.2.1 hl hplaced
  have hhook := (hhooks 0 _ 0x71 (startup_section (by decide)) (by decide) (by decide)).1
    ⟨0x2c1, 0x2d0, [0xe9, 0x8a, 0xef, 0x00, 0x00]⟩ (by decide) (by decide)
  have hjmp : Use.byte ⟨0x2c1, 0x2d0, [0xe9, 0x8a, 0xef, 0x00, 0x00]⟩
      ((startupSections.getD 0 textSection).offset + 0x71) = 0xe9 := by decide
  rw [hjmp] at hhook
  have hslot := hothers 6 _ 4 (startup_section (by decide)) (by decide) (by decide) (by decide)
  have hsym : sectionByte (byteAt startupFile.f) startupTables false
      (startupSections.getD 6 textSection) 4 = .sym (ascii "h") 0 := by decide +kernel
  rw [hsym] at hslot
  have hcode := hrest 0x410000 (fun x s hs _ hold => absurd (startup_below hs hold) (by decide))
    (.inl (by decide))
  exact ⟨text, placed, startup_read.2.1, hplaced, hhook, hslot, hcode⟩

end Startup

end Metroskrew.Relink
