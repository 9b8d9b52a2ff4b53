import Metroskrew.Relink.Image
import Metroskrew.Relink.WrittenDump

/-! Over a whole run of `dump_asm`: which sections write an import slot or a string block. The loop
over a section also looks up the address just past its last byte, where the next one may begin. -/

namespace Metroskrew.Relink

variable {t : Tables} {win : Bool} {sec : PeSection} {β : Type}

def Directive.symbol? : Directive → Option CString
  | .long symbol => some symbol
  | _ => none

def Directive.block? : Directive → Option (ℕ × ℕ × ℕ)
  | .rsrcString id off len => some (id, off, len)
  | _ => none

/-- One section writes `line` for the address, it is the one that holds it, and no other section
writes anything for it. -/
def OnceAt (out : AsmDump) (g : Directive → Option β) (a : ℕ) (line : SectionDump → β) : Prop :=
  ∃ (i : ℕ) (s : SectionDump), out.sections[i]? = some s ∧ Holds s.sec a ∧ s.pickAt g a = [line s] ∧
    ∀ j (u : SectionDump), j ≠ i → out.sections[j]? = some u → u.pickAt g a = []

/-- Every slot's `.long` and every block's label and `.incbin` is written exactly once. -/
def EmittedOnce (t : Tables) (win : Bool) (out : AsmDump) : Prop :=
  (∀ x a, SlotAt t x a → ∃ d, dumpImportAt t x = .ok d ∧
    OnceAt out Directive.symbol? a (fun _ => importSymbol win d)) ∧
  ∀ y b n, BlockAt t y b n → n ≠ 0 → OnceAt out Directive.block? b
    (fun s => (t.rsrcStrings.id.getD y 0, s.sec.offset + (b - s.sec.address), n))

/-- The sections of the file are disjoint, and so are the slots and blocks, each in a section. -/
structure Placed (t : Tables) (file : PeFile) : Prop where
  sections_apart : ∀ x y s u a, x ≠ y → SectionAt file x s → SectionAt file y u →
    Holds s a → ¬ Holds u a
  items_apart : ∀ i j a b n m, i ≠ j → ItemAt t i a n → ItemAt t j b m → a + n ≤ b ∨ b + m ≤ a
  item_inside : ∀ i a n, ItemAt t i a n →
    ∃ x s, SectionAt file x s ∧ s.address ≤ a ∧ a + n ≤ s.address + s.vsize

lemma ItemAt.pos {i : ℕ ⊕ ℕ} {a n : ℕ} (h : ItemAt t i a n) : 0 < n := by
  cases i with
  | inl x => exact h.2 ▸ by decide
  | inr y => exact Nat.pos_of_ne_zero h.2

lemma Placed.tidy {file : PeFile} (h : Placed t file) {x : ℕ} (hs : SectionAt file x sec) :
    Tidy t sec := by
  refine ⟨?_, fun i j a b n m hne hi hj _ _ => h.items_apart i j a b n m hne hi hj⟩
  intro i a n hi hlo hlt
  obtain ⟨y, u, hu, hua, hun⟩ := h.item_inside i a n hi
  have hn := hi.pos
  by_cases hxy : x = y
  · subst hxy
    obtain rfl : sec = u := Option.some.inj (hs.2.symm.trans hu.2)
    exact hun
  · exact absurd ⟨hua, by omega⟩ (h.sections_apart x y sec u a hxy hs hu ⟨hlo, hlt⟩)

/-- Every item of the section, and its end, is a position that the loop comes to. -/
lemma Tidy.reached (ht : Tidy t sec) {pos lastPos : ℕ} {ds : List (ℕ × Directive)}
    (h : Run t win sec pos lastPos ds) {p : ℕ} (hp : pos ≤ p) (hle : p ≤ sec.vsize)
    (hstop : (∃ i n, ItemAt t i (sec.address + p) n) ∨ p = sec.vsize) : Reached t sec pos p := by
  induction h with
  | done hgt => omega
  | @skip pos lastPos found ds hlt hf hd hrun ih =>
    rcases eq_or_lt_of_le hp with rfl | hpp
    · exact .here
    · refine .next hlt.le ?_
      rw [← findAt_room win hf, Found.dump_false_size hd]
      exact ih hpp
  | @visit pos lastPos found ds hpos hf hrun ih =>
    rcases eq_or_lt_of_le hp with rfl | hpp
    · exact .here
    · refine .next hpos ?_
      rw [← findAt_room win hf]
      apply ih
      rcases hstop with ⟨i, n, hi⟩ | hend
      · have := ht.afterVisit_le win hpos hf hi (by omega) (by omega)
        omega
      · by_cases hz : (dumpFound win sec pos found).2 = 0
        · rw [afterVisit, if_pos hz]
          exact hpp
        · obtain ⟨i, hi⟩ := (ht.visitKind win hpos hf).item hz
          have := ht.inside i _ _ hi (by omega) (by omega)
          rw [afterVisit, if_neg hz]
          omega

lemma dumpDoExport_silent {g : Directive → Option β} (hglobl : ∀ name, g (.globl name) = none)
    (hlabel : ∀ name, g (.label name) = none) (d : DumpExport) :
    (dumpDoExport d).1.filterMap g = [] := by
  cases h : d.name <;> simp [dumpDoExport, h, hglobl, hlabel]

lemma found_symbols (p : ℕ) (found : Found) :
    (dumpFound win sec p found).1.filterMap Directive.symbol? =
      (found.imp.map (importSymbol win)).toList := by
  have hexp := dumpDoExport_silent (g := Directive.symbol?) (fun _ => rfl) fun _ => rfl
  cases he : found.exp <;> cases hi : found.imp <;> cases hr : found.rsrc <;>
    simp [dumpFound, hexp, he, hi, hr, dumpDoImport, dumpDoRsrcString, Directive.symbol?]

lemma found_blocks (p : ℕ) (found : Found) :
    (dumpFound win sec p found).1.filterMap Directive.block? =
      (found.rsrc.map fun d => (d.id, sec.offset + p, d.size)).toList := by
  have hexp := dumpDoExport_silent (g := Directive.block?) (fun _ => rfl) fun _ => rfl
  cases he : found.exp <;> cases hi : found.imp <;> cases hr : found.rsrc <;>
    simp [dumpFound, hexp, he, hi, hr, dumpDoImport, dumpDoRsrcString, List.filterMap_cons, Directive.block?]

variable {file : PeFile} {out : AsmDump} {g : Directive → Option β}

lemma Written.turn (hw : Written t win file out) (hp : Placed t file)
    (hincbin : ∀ off len, g (.incbin off len) = none) (hzero : ∀ len, g (.zero len) = none)
    {x a : ℕ} {s : SectionDump} (hx : out.sections[x]? = some s) (hv : Visits s.sec a)
    (hstop : (∃ i n, ItemAt t i a n) ∨ a = s.sec.address + s.sec.vsize) :
    ∃ found, findAt t a = .ok found ∧
      s.pickAt g a = (dumpFound win s.sec (a - s.sec.address) found).1.filterMap g := by
  obtain ⟨hsec, hrun⟩ := hw.section_of hx
  have ha : s.sec.address + (a - s.sec.address) = a := Nat.add_sub_cancel' hv.1
  have hle : a - s.sec.address ≤ s.sec.vsize := by
    have := hv.2
    omega
  have hstop' : (∃ i n, ItemAt t i (s.sec.address + (a - s.sec.address)) n) ∨
      a - s.sec.address = s.sec.vsize := by
    rcases hstop with hi | hend
    · exact .inl (ha.symm ▸ hi)
    · exact .inr (by omega)
  have hreach := (hp.tidy hsec).reached hrun (Nat.zero_le _) hle hstop'
  obtain ⟨found, hf, hpick⟩ := run_reached hincbin hzero hrun hreach hle
  exact ⟨found, ha ▸ hf, by rw [SectionDump.pickAt, if_pos hv.1, hpick]⟩

lemma Written.slot_pick (hw : Written t win file out) (hp : Placed t file) {x y a : ℕ}
    {s : SectionDump} (hx : out.sections[x]? = some s) (hv : Visits s.sec a)
    (hslot : SlotAt t y a) :
    ∃ d, dumpImportAt t y = .ok d ∧ s.pickAt Directive.symbol? a = [importSymbol win d] := by
  obtain ⟨hsec, _⟩ := hw.section_of hx
  obtain ⟨found, hf, hpick⟩ := hw.turn (g := Directive.symbol?) hp (fun _ _ => rfl) (fun _ => rfl)
    hx hv (.inl ⟨.inl y, 4, hslot, rfl⟩)
  obtain ⟨_, himp, _⟩ := findAt_ok hf
  rw [hpick, found_symbols]
  cases hi : found.imp with
  | none => exact absurd hslot (findImport_none (hi ▸ himp) y)
  | some d =>
    obtain ⟨z, hz, hd⟩ := findImport_some (hi ▸ himp)
    obtain rfl := (hp.tidy hsec).slot_unique hslot hz hv
    exact ⟨d, hd, rfl⟩

lemma Written.block_pick (hw : Written t win file out) (hp : Placed t file) {x y b n : ℕ}
    {s : SectionDump} (hx : out.sections[x]? = some s) (hv : Visits s.sec b)
    (hblock : BlockAt t y b n) (hn : n ≠ 0) :
    ∃ z m, BlockAt t z b m ∧ (∀ w < z, ∀ k, ¬ BlockAt t w b k) ∧ s.pickAt Directive.block? b =
      [(t.rsrcStrings.id.getD z 0, s.sec.offset + (b - s.sec.address), m)] := by
  obtain ⟨found, hf, hpick⟩ := hw.turn (g := Directive.block?) hp (fun _ _ => rfl) (fun _ => rfl)
    hx hv (.inl ⟨.inr y, n, hblock, hn⟩)
  obtain ⟨_, _, hrsrc⟩ := findAt_ok hf
  rw [hpick, found_blocks]
  cases hr : found.rsrc with
  | none => exact absurd hblock (findRsrc_none (hr ▸ hrsrc) y n)
  | some d =>
    obtain ⟨z, hz, hid, hfirst⟩ := findRsrc_some (hr ▸ hrsrc)
    exact ⟨z, d.size, hz, hfirst, by rw [← hid]; rfl⟩

lemma Written.onceAt (hw : Written t win file out) (hp : Placed t file) {i : ℕ ⊕ ℕ} {a n : ℕ}
    {line : SectionDump → β} (hi : ItemAt t i a n)
    (hend : ∀ x s, SectionAt file x s → a ≠ s.address + s.vsize)
    (hline : ∀ (x : ℕ) (s : SectionDump), out.sections[x]? = some s → Visits s.sec a →
      s.pickAt g a = [line s]) : OnceAt out g a line := by
  obtain ⟨x, sec, hsec, hlo, hhi⟩ := hp.item_inside i a n hi
  obtain ⟨s, hx, rfl⟩ := hw.dump_of hsec
  have hn := hi.pos
  have hold : Holds s.sec a := ⟨hlo, by omega⟩
  refine ⟨x, s, hx, hold, hline x s hx ⟨hlo, by omega⟩, fun y u hne hy => ?_⟩
  obtain ⟨husec, _⟩ := hw.section_of hy
  apply hw.pickAt_far hy
  intro hv
  have hno := hp.sections_apart x y _ _ a hne.symm hsec husec hold
  have := hend y u.sec husec
  exact hno ⟨hv.1, Nat.lt_of_le_of_ne hv.2 this⟩

lemma Written.not_onceAt (hw : Written t win file out) {x a : ℕ} {sec : PeSection}
    {line : SectionDump → β} (hsec : SectionAt file x sec) (hend : a = sec.address + sec.vsize)
    (hline : ∀ (x : ℕ) (s : SectionDump), out.sections[x]? = some s → Visits s.sec a →
      s.pickAt g a ≠ []) : ¬ OnceAt out g a line := by
  rintro ⟨y, u, hy, hold, _, hothers⟩
  obtain ⟨s, hx, rfl⟩ := hw.dump_of hsec
  have hne : x ≠ y := by
    rintro rfl
    obtain rfl : s = u := Option.some.inj (hx.symm.trans hy)
    have := hold.2
    omega
  exact hline x s hx ⟨by omega, by omega⟩ (hothers x s hne hx)

/-- No item starts where a section ends. -/
def ClearOfEnds (t : Tables) (file : PeFile) : Prop :=
  ∀ i a n, ItemAt t i a n → ∀ x s, SectionAt file x s → a ≠ s.address + s.vsize

/-- No empty block comes before another block of the same address. -/
def Unshadowed (t : Tables) : Prop :=
  ∀ y b n, BlockAt t y b n → n ≠ 0 → ∀ z < y, ¬ BlockAt t z b 0

lemma Placed.block_unique (hp : Placed t file) {y z b n m : ℕ} (hy : BlockAt t y b n) (hn : n ≠ 0)
    (hz : BlockAt t z b m) (hm : m ≠ 0) : y = z := by
  by_contra hne
  have := hp.items_apart (.inr y) (.inr z) b b n m (by simpa using hne) ⟨hy, hn⟩ ⟨hz, hm⟩
  omega

lemma Written.emitted_iff (hw : Written t win file out) (hp : Placed t file) :
    EmittedOnce t win out ↔ ClearOfEnds t file ∧ Unshadowed t := by
  constructor
  · rintro ⟨hslots, hblocks⟩
    refine ⟨?_, ?_⟩
    · rintro (y | y) a n hi x sec hsec hend
      · obtain ⟨d, _, honce⟩ := hslots y a hi.1
        refine hw.not_onceAt hsec hend (fun z s hz hv => ?_) honce
        obtain ⟨e, _, hpick⟩ := hw.slot_pick hp hz hv hi.1
        simp [hpick]
      · refine hw.not_onceAt hsec hend (fun z s hz hv => ?_) (hblocks y a n hi.1 hi.2)
        obtain ⟨w, m, _, _, hpick⟩ := hw.block_pick hp hz hv hi.1 hi.2
        simp [hpick]
    · intro y b n hy hn z hzy hz
      obtain ⟨x, s, hx, hold, hpick, _⟩ := hblocks y b n hy hn
      obtain ⟨w, m, hwb, hfirst, hpick'⟩ := hw.block_pick hp hx ⟨hold.1, hold.2.le⟩ hy hn
      have hnm : m = n := by
        rw [hpick] at hpick'
        simp only [List.cons.injEq, Prod.mk.injEq, and_true] at hpick'
        exact hpick'.2.2.symm
      obtain rfl := hp.block_unique hy hn hwb (hnm ▸ hn)
      exact hfirst z hzy 0 hz
  · rintro ⟨hends, hshadow⟩
    refine ⟨?_, ?_⟩
    · intro y a hy
      have hi : ItemAt t (.inl y) a 4 := ⟨hy, rfl⟩
      obtain ⟨x, sec, hsec, hlo, hhi⟩ := hp.item_inside _ a 4 hi
      obtain ⟨s, hx, rfl⟩ := hw.dump_of hsec
      obtain ⟨d, hd, _⟩ := hw.slot_pick hp hx ⟨hlo, by omega⟩ hy
      refine ⟨d, hd, hw.onceAt hp hi (hends _ a 4 hi) fun z u hz hv => ?_⟩
      obtain ⟨e, he, hpick⟩ := hw.slot_pick hp hz hv hy
      obtain rfl : d = e := Except.ok.inj (hd.symm.trans he)
      exact hpick
    · intro y b n hy hn
      have hi : ItemAt t (.inr y) b n := ⟨hy, hn⟩
      apply hw.onceAt hp hi (hends _ b n hi)
      intro z u hz hv
      obtain ⟨w, m, hwb, hfirst, hpick⟩ := hw.block_pick hp hz hv hy hn
      have hle : w ≤ y := by
        by_contra hlt
        exact hfirst y (by omega) n hy
      have hwy : w = y := by
        by_cases hm : m = 0
        · by_contra hne
          exact hshadow y b n hy hn w (by omega) (hm ▸ hwb)
        · exact (hp.block_unique hy hn hwb hm).symm
      subst hwy
      obtain rfl : m = n := hwb.2.symm.trans hy.2
      exact hpick

/-- With its sections and items placed apart, a file is dumped with every slot and block written exactly
once iff what is looked up can be read, none of them starts just past a section, and none is hidden by
an empty block. -/
theorem emitted_once (win : Bool) (file : PeFile) (t : Tables) (ht : readTables file = .ok t)
    (hp : Placed t file) :
    (∃ out, dumpAsm win file = .ok out ∧ EmittedOnce t win out) ↔
      Readable t ∧ ClearOfEnds t file ∧ Unshadowed t := by
  obtain rfl := readTables_file ht
  constructor
  · rintro ⟨out, hout, honce⟩
    exact ⟨readable_of_dumpAsm ht hout, ((dumpAsm_written ht hout).emitted_iff hp).mp honce⟩
  · rintro ⟨hread, hclear⟩
    obtain ⟨out, hout⟩ := hread.dumpAsm win ht
    exact ⟨out, hout, ((dumpAsm_written ht hout).emitted_iff hp).mpr hclear⟩

def twoSections (gap : ℕ) : List UInt8 :=
  let idata := 0x1004 + gap
  List.replicate 0x3c 0 ++ word 0x40 ++
    peBytes 2 0x78 0x1000 0x400000 [(0, 0), (idata + 0x10, 40), (0, 0)] ++
    sectionBytes (ascii ".text") 4 0x1000 4 0x120 0xc0000040 ++
    sectionBytes (ascii ".idata") 0x40 idata 0x40 0x124 0xc0000040 ++
    [0x90, 0x90, 0x90, 0xc3] ++
    word (idata + 0x3c) ++ word 0 ++ word (idata + 0x3c) ++ word 0 ++
    word (idata + 8) ++ word 0 ++ word 0 ++ word (idata + 0x38) ++ word idata ++
    List.replicate 20 0 ++ ascii "k" ++ [0, 0, 0] ++ [0, 0] ++ ascii "f" ++ [0]

def twoSectionsFile (gap : ℕ) : PeFile where
  f := twoSections gap
  headerOff := 0x40
  datadirOff := 0xb8
  sectionsOff := 0xd0
  sectionsNum := 2
  entrypoint := 0x1000
  baseAddr := 0x400000
  datadirNum := 3

def twoSectionsTables (gap : ℕ) : Tables where
  file := twoSectionsFile gap
  exports := ⟨0, 0, 0, [], []⟩
  imports := ⟨1, 1, [0x401004 + gap], [0x103c + gap], [0x1042 + gap]⟩
  rsrcStrings := ⟨0, [], [], []⟩

def textSection : PeSection := ⟨ascii ".text", 4, 0x401000, 4, 0x120, true, true, false⟩

def idataSection (gap : ℕ) : PeSection :=
  ⟨ascii ".idata", 0x40, 0x401004 + gap, 0x40, 0x124, true, true, false⟩

def twoSectionsDump (gap : ℕ) (textEnd : List (ℕ × Directive)) : AsmDump where
  start := [.globl (ascii "pe_start"), .assign (ascii "pe_start") 0x401000]
  sections := [
    ⟨textSection, sectionHeader false textSection, (4, .incbin 0x120 4) :: textEnd⟩,
    ⟨idataSection gap, sectionHeader false (idataSection gap),
      [(0, .long (ascii "f")), (0x40, .incbin 0x128 0x3c)]⟩]
  strings := rsrcTable (twoSectionsTables gap)

lemma twoSections_sectionAt {gap x : ℕ} {s : PeSection} (hgap : gap = 0 ∨ gap = 0xc)
    (h : SectionAt (twoSectionsFile gap) x s) :
    (x = 0 ∧ s = textSection) ∨ (x = 1 ∧ s = idataSection gap) := by
  obtain ⟨hlt, hs⟩ := h
  have hx : x = 0 ∨ x = 1 := by
    have : x < 2 := hlt
    omega
  rcases hx with rfl | rfl
  · have ht : peReadSectionHeader (twoSectionsFile gap) 0 = some textSection := by
      rcases hgap with rfl | rfl <;> decide +kernel
    exact .inl ⟨rfl, Option.some.inj (hs.symm.trans ht)⟩
  · have ht : peReadSectionHeader (twoSectionsFile gap) 1 = some (idataSection gap) := by
      rcases hgap with rfl | rfl <;> decide +kernel
    exact .inr ⟨rfl, Option.some.inj (hs.symm.trans ht)⟩

lemma twoSections_itemAt {gap a n : ℕ} {i : ℕ ⊕ ℕ} (h : ItemAt (twoSectionsTables gap) i a n) :
    i = .inl 0 ∧ a = 0x401004 + gap ∧ n = 4 := by
  cases i with
  | inl x =>
    obtain ⟨hx, hn⟩ := h
    cases x with
    | zero => exact ⟨rfl, (Option.some.inj hx).symm, hn⟩
    | succ x => cases hx
  | inr y => cases h.1.1

lemma twoSections_placed {gap : ℕ} (hgap : gap = 0 ∨ gap = 0xc) :
    Placed (twoSectionsTables gap) (twoSectionsFile gap) := by
  refine ⟨?_, ?_, ?_⟩
  · rintro x y s u a hne hs hu ⟨hslo, hshi⟩ ⟨hulo, huhi⟩
    rcases twoSections_sectionAt hgap hs with ⟨rfl, rfl⟩ | ⟨rfl, rfl⟩ <;>
      rcases twoSections_sectionAt hgap hu with ⟨rfl, rfl⟩ | ⟨rfl, rfl⟩ <;>
      simp [textSection, idataSection] at hne hslo hshi hulo huhi <;> omega
  · intro i j a b n m hne hi hj
    obtain ⟨rfl, _⟩ := twoSections_itemAt hi
    obtain ⟨rfl, _⟩ := twoSections_itemAt hj
    exact absurd rfl hne
  · intro i a n hi
    obtain ⟨rfl, rfl, rfl⟩ := twoSections_itemAt hi
    have hread : peReadSectionHeader (twoSectionsFile gap) 1 = some (idataSection gap) := by
      rcases hgap with rfl | rfl <;> decide +kernel
    exact ⟨1, idataSection gap, ⟨Nat.lt_succ_self 1, hread⟩, le_rfl, by simp [idataSection]⟩

theorem emitted_twice :
    peOpenReadHeader (twoSections 0) = some (twoSectionsFile 0) ∧
      readTables (twoSectionsFile 0) = .ok (twoSectionsTables 0) ∧
      Placed (twoSectionsTables 0) (twoSectionsFile 0) ∧
      ∃ out, dumpAsm false (twoSectionsFile 0) = .ok out ∧
        ¬ EmittedOnce (twoSectionsTables 0) false out := by
  refine ⟨by decide +kernel, by decide +kernel, twoSections_placed (.inl rfl),
    twoSectionsDump 0 [(4, .long (ascii "f"))], by decide +kernel, ?_⟩
  rintro ⟨hslots, _⟩
  obtain ⟨d, _, i, s, hi, hold, _, hothers⟩ := hslots 0 0x401004 rfl
  cases i with
  | zero =>
    obtain rfl := Option.some.inj hi
    exact absurd hold.2 (by decide)
  | succ i =>
    exact absurd (hothers 0 _ (by simp) rfl) (by decide +kernel)

lemma twoSections_readable : Readable (twoSectionsTables 0xc) := by
  have ht : readTables (twoSectionsFile 0xc) = .ok (twoSectionsTables 0xc) := by decide +kernel
  have hout : dumpAsm false (twoSectionsFile 0xc) = .ok (twoSectionsDump 0xc []) := by decide +kernel
  exact readable_of_dumpAsm ht hout

theorem emitted_once_apart :
    ∃ out, dumpAsm false (twoSectionsFile 0xc) = .ok out ∧
      EmittedOnce (twoSectionsTables 0xc) false out := by
  refine (emitted_once false _ _ (by decide +kernel) (twoSections_placed (.inr rfl))).mpr
    ⟨twoSections_readable, ?_, ?_⟩
  · intro i a n hi x s hs
    obtain ⟨rfl, rfl, rfl⟩ := twoSections_itemAt hi
    rcases twoSections_sectionAt (.inr rfl) hs with ⟨rfl, rfl⟩ | ⟨rfl, rfl⟩ <;> decide
  · intro y b n hy hn
    exact absurd (twoSections_itemAt (i := .inr y) ⟨hy, hn⟩).1 (by simp)

end Metroskrew.Relink
