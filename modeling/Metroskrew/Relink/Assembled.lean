import Metroskrew.Library.Linking
import Metroskrew.Relink.SectionLayout
import Metroskrew.Relink.WrittenDump

/-! What gas makes of the dump: each section of it is a section of the object file, with the bytes and the
symbols of the lines between its header and the next. -/

namespace Metroskrew.Relink

open Metroskrew.Library.Linking Metroskrew.Library.Window

section Gas

variable (f : List UInt8)

/-- How much of the file `.incbin` takes: a count of zero stands for all that is left. -/
def gasCount (off len : ℕ) : ℕ := if len = 0 then f.length - off else len

def Directive.gasEmit : Directive → List OutByte
  | .incbin off len => window (fun i => .raw (byteAt f i)) off (gasCount f off len)
  | .rsrcString _ off len => window (fun i => .raw (byteAt f i)) off (gasCount f off len)
  | line => line.expand (byteAt f)

/-- gas stops at a count that goes past the end of the file. -/
def Directive.accepted : Directive → Bool
  | .incbin off len => off + gasCount f off len ≤ f.length
  | .rsrcString _ off len => off + gasCount f off len ≤ f.length
  | _ => true

/-- The lines of the dump for gas; `f` is the file that `.incbin` reads. -/
def gas : Assembler Directive CString CString OutByte where
  switch
    | .section name _ _ => some name
    | _ => none
  symbol
    | .label name => some name
    | .rsrcString id _ _ => some (rsrcSymbol id)
    | _ => none
  emit := Directive.gasEmit f

/-- Lines whose counts are what they say. -/
def assembler : Assembler Directive CString CString OutByte := { gas f with emit := Directive.expand (byteAt f) }

end Gas

def AsmDump.lines (out : AsmDump) : List Directive :=
  out.start ++ out.sections.flatMap (fun s => s.header ++ s.body.map Prod.snd) ++ out.strings

/-- The value that a line `name = value` gives a symbol. -/
def assigned (lines : List Directive) (name : CString) : Option ℕ :=
  lines.findSome? fun
    | .assign n value => if n = name then some value else none
    | _ => none

/-- The section an assembly file starts in. -/
def firstSection : CString := ascii ".text"

def peSection (name : CString) : CString := ascii ".pe_" ++ name

def peAddr (name : CString) : CString := ascii "pe_" ++ name ++ ascii "_addr"

def rsrcSection : CString := ascii ".pe_rsrc_strings"

variable (f : List UInt8)

def PeSection.short (sec : PeSection) : CString :=
  if sec.name.head? = some 0x2e then sec.name.tail else sec.name

lemma sectionHeader_eq (win : Bool) (sec : PeSection) :
    ∃ flags type, sectionHeader win sec =
      [.globl (peAddr sec.short), .assign (peAddr sec.short) sec.address,
        .section (peSection sec.short) flags type] := ⟨_, _, rfl⟩

lemma peAddr_inj {a b : CString} (h : peAddr a = peAddr b) : a = b := by
  rw [peAddr, peAddr, List.append_assoc, List.append_assoc] at h
  exact List.append_cancel_right (List.append_cancel_left h)

lemma peSection_inj {a b : CString} (h : peSection a = peSection b) : a = b :=
  List.append_cancel_left h

lemma peAddr_ne_start (name : CString) : ascii "pe_start" ≠ peAddr name := by
  intro h
  have hlen : 8 = name.length + 8 := by
    simpa [peAddr, ascii, Nat.add_comm, Nat.add_left_comm] using congrArg List.length h
  obtain rfl : name = [] := List.length_eq_zero_iff.mp (by omega)
  revert h
  decide

/-! ### The lines of a section -/

/-- No section is opened, and no symbol is given a value. -/
def Directive.inner : Directive → Bool
  | .section _ _ _ | .assign _ _ => false
  | _ => true

variable {t : Tables} {win : Bool} {sec : PeSection}

lemma flush_inner (lastPos pos : ℕ) : ∀ d ∈ flushTo sec lastPos pos, d.inner = true := by
  unfold flushTo
  split_ifs <;> simp [Directive.inner]

lemma dumpDoExport_inner (d : DumpExport) : ∀ l ∈ (dumpDoExport d).1, l.inner = true := by
  cases h : d.name <;> simp [dumpDoExport, h, Directive.inner]

lemma dumpFound_inner (pos : ℕ) (found : Found) :
    ∀ d ∈ (dumpFound win sec pos found).1, d.inner = true := by
  intro d hd
  simp only [dumpFound, List.mem_append] at hd
  rcases hd with (hd | hd) | hd
  · cases he : found.exp with
    | none => simp [he] at hd
    | some e =>
      rw [he] at hd
      exact dumpDoExport_inner e d hd
  · cases hi : found.imp <;> simp [hi, dumpDoImport] at hd
    rw [hd]
    rfl
  · cases hr : found.rsrc <;> simp [hr, dumpDoRsrcString] at hd
    rw [hd]
    rfl

lemma run_inner {pos lastPos : ℕ} {ds : List (ℕ × Directive)} (h : Run t win sec pos lastPos ds) :
    ∀ d ∈ ds.map Prod.snd, d.inner = true := by
  induction h with
  | done hgt => simp
  | skip hlt hf hd _ ih => exact ih
  | @visit pos lastPos found ds hle hf _ ih =>
    intro d hd
    rw [List.map_append, List.map_map, List.mem_append] at hd
    rcases hd with hd | hd
    · have hd : d ∈ visitLines win sec pos lastPos found := by simpa using hd
      rcases List.mem_append.mp hd with hd | hd
      · exact flush_inner lastPos pos d hd
      · exact dumpFound_inner pos found d hd
    · exact ih d hd

lemma switch_of_inner {d : Directive} (h : d.inner = true) : (assembler f).switch d = none := by
  cases d <;> first | rfl | cases h

/-! ### Counts -/

/-- No count of zero, which gas would take for something else. -/
def Directive.counted : Directive → Prop
  | .incbin _ len | .rsrcString _ _ len => len ≠ 0
  | _ => True

lemma Directive.counted.gasEmit {d : Directive} (h : d.counted) : d.gasEmit f = d.expand (byteAt f) := by
  cases d with
  | incbin off len => simp only [Directive.gasEmit, gasCount, if_neg (show len ≠ 0 from h), Directive.expand]
  | rsrcString id off len =>
    simp only [Directive.gasEmit, gasCount, if_neg (show len ≠ 0 from h), Directive.expand]
  | _ => rfl

lemma flush_counted (lastPos pos : ℕ) (hle : lastPos ≤ pos) :
    ∀ d ∈ flushTo sec lastPos pos, d.counted := by
  intro d hd
  unfold flushTo at hd
  split_ifs at hd with heq hin hraw <;> simp at hd
  · rw [hd]
    exact Nat.sub_ne_zero_of_lt (by omega)
  · rcases hd with rfl | rfl
    · exact Nat.sub_ne_zero_of_lt hraw
    · trivial
  · rw [hd]
    trivial

lemma dumpFound_counted (hfull : ∀ y b, ¬ BlockAt t y b 0) {pos : ℕ} {found : Found}
    (hf : findAt t (sec.address + pos) = .ok found) :
    ∀ d ∈ (dumpFound win sec pos found).1, d.counted := by
  intro d hd
  simp only [dumpFound, List.mem_append] at hd
  rcases hd with (hd | hd) | hd
  · cases he : found.exp with
    | none => simp [he] at hd
    | some e =>
      cases hn : e.name <;> simp [he, dumpDoExport, hn] at hd
      · rcases hd with rfl | rfl <;> trivial
      · rcases hd with rfl | rfl | rfl | rfl <;> trivial
  · cases hi : found.imp <;> simp [hi, dumpDoImport] at hd
    rw [hd]
    trivial
  · cases hr : found.rsrc <;> simp [hr, dumpDoRsrcString] at hd
    rename_i r
    rw [hd]
    obtain ⟨y, hy, _⟩ := findRsrc_some ((findAt_ok hf).2.2.trans hr)
    exact fun hzero => hfull y _ (hzero ▸ hy)

lemma run_counted (hfull : ∀ y b, ¬ BlockAt t y b 0) {pos lastPos : ℕ} {ds : List (ℕ × Directive)}
    (h : Run t win sec pos lastPos ds) (hle : lastPos ≤ pos) : ∀ d ∈ ds.map Prod.snd, d.counted := by
  induction h with
  | done hgt => simp
  | skip hlt hf hd _ ih => exact ih (by omega)
  | @visit pos lastPos found ds hpos hf _ ih =>
    intro d hd
    rw [List.map_append, List.map_map, List.mem_append] at hd
    rcases hd with hd | hd
    · have hd : d ∈ visitLines win sec pos lastPos found := by simpa using hd
      rcases List.mem_append.mp hd with hd | hd
      · exact flush_counted lastPos pos hle d hd
      · exact dumpFound_counted hfull hf d hd
    · apply ih _ d hd
      unfold afterVisit
      split_ifs <;> dsimp only <;> omega

/-! ### The dump as chunks -/

def SectionDump.chunk (s : SectionDump) : Assembler.Chunk Directive CString where
  before := s.header.take 2
  name := peSection s.sec.short
  head := s.header.getD 2 .rsrcEnd
  body := s.body.map Prod.snd

def rsrcChunk (t : Tables) : Assembler.Chunk Directive CString where
  before := []
  name := rsrcSection
  head := .section rsrcSection (ascii "a") []
  body := (rsrcTable t).tail

def AsmDump.chunks (t : Tables) (out : AsmDump) : List (Assembler.Chunk Directive CString) :=
  out.sections.map SectionDump.chunk ++ [rsrcChunk t]

lemma dumpSection_header {x : ℕ} {s : SectionDump} (h : dumpSection t win x = .ok s) :
    s.header = sectionHeader win s.sec := by
  rw [dumpSection] at h
  cases hs : peReadSectionHeader t.file x with
  | none =>
    rw [hs] at h
    cases h
  | some sec =>
    rw [hs] at h
    cases hb : sectionLoop t win sec 0 0 with
    | error message => simp [orFail, hb, bind, Except.bind] at h
    | ok body =>
      simp only [orFail, hb, bind, Except.bind, pure, Except.pure, Except.ok.injEq] at h
      subst h
      rfl

/-- The three parts of the dump. -/
structure Dumped (t : Tables) (win : Bool) (file : PeFile) (out : AsmDump) : Prop
    extends Written t win file out where
  header : ∀ s ∈ out.sections, s.header = sectionHeader win s.sec
  start : out.start =
    [.globl (ascii "pe_start"), .assign (ascii "pe_start") (peGetEntrypoint file)]
  strings : out.strings = rsrcTable t

lemma dumpAsm_parts {file : PeFile} {out : AsmDump} (ht : readTables file = .ok t)
    (h : dumpAsm win file = .ok out) :
    ∃ sections, (List.range file.sectionsNum).mapM (dumpSection t win) = .ok sections ∧
      out = ⟨[.globl (ascii "pe_start"), .assign (ascii "pe_start") (peGetEntrypoint file)],
        sections, rsrcTable t⟩ := by
  rw [dumpAsm, ht] at h
  cases hm : (List.range file.sectionsNum).mapM (dumpSection t win) with
  | error message => simp [hm, bind, Except.bind] at h
  | ok sections =>
    simp only [hm, bind, Except.bind, pure, Except.pure, Except.ok.injEq] at h
    exact ⟨sections, rfl, h.symm⟩

lemma dumpAsm_dumped {file : PeFile} {out : AsmDump} (ht : readTables file = .ok t)
    (h : dumpAsm win file = .ok out) : Dumped t win file out := by
  obtain ⟨sections, hm, rfl⟩ := dumpAsm_parts ht h
  refine { toWritten := dumpAsm_written ht h, header := ?_, start := rfl, strings := rfl }
  intro s hs
  have hread : (Except.ok s : Dump SectionDump) ∈ sections.map Except.ok :=
    List.mem_map_of_mem hs
  rw [← map_of_mapM hm] at hread
  obtain ⟨x, _, hx⟩ := List.mem_map.mp hread
  exact dumpSection_header hx

variable {file : PeFile} {out : AsmDump} {f : List UInt8}

lemma Dumped.lines (h : Dumped t win file out) :
    out.lines = out.start ++ (out.chunks t).flatMap Assembler.Chunk.lines := by
  have hsections : out.sections.flatMap (fun s => s.header ++ s.body.map Prod.snd) =
      (out.sections.map SectionDump.chunk).flatMap Assembler.Chunk.lines := by
    rw [List.flatMap_map]
    apply List.flatMap_congr
    intro s hs
    obtain ⟨flags, type, hheader⟩ := sectionHeader_eq win s.sec
    rw [SectionDump.chunk, Assembler.Chunk.lines, h.header s hs, hheader]
    rfl
  have hstrings : [rsrcChunk t].flatMap Assembler.Chunk.lines = rsrcTable t := by
    simp [rsrcChunk, Assembler.Chunk.lines, rsrcTable, rsrcSection]
  rw [AsmDump.lines, AsmDump.chunks, hsections, h.strings, List.flatMap_append, hstrings,
    List.append_assoc]

lemma Dumped.counted (h : Dumped t win file out) (hfull : ∀ y b, ¬ BlockAt t y b 0) :
    ∀ d ∈ out.lines, d.counted := by
  intro d hd
  simp only [AsmDump.lines, h.start, h.strings, List.mem_append, List.mem_flatMap] at hd
  rcases hd with (hd | ⟨s, hs, hd⟩) | hd
  · rcases List.mem_cons.mp hd with rfl | hd
    · trivial
    · rw [List.mem_singleton.mp hd]
      trivial
  · obtain ⟨x, hx⟩ := List.mem_iff_getElem?.mp hs
    rcases hd with hd | hd
    · obtain ⟨flags, type, hheader⟩ := sectionHeader_eq win s.sec
      rw [h.header s hs, hheader] at hd
      simp only [List.mem_cons, List.not_mem_nil, or_false] at hd
      rcases hd with rfl | rfl | rfl <;> trivial
    · exact run_counted hfull (h.section_of hx).2 le_rfl d hd
  · simp only [rsrcTable, List.cons_append, List.nil_append, List.mem_cons, List.mem_append,
      List.mem_map, List.not_mem_nil, or_false] at hd
    rcases hd with rfl | rfl | rfl | ⟨x, _, rfl⟩ | rfl <;> trivial

lemma Dumped.start_quiet (h : Dumped t win file out) : (assembler f).Quiet out.start := by
  rw [h.start]
  simp [Assembler.Quiet, assembler, gas, Directive.expand]

lemma rsrcTable_plain (t : Tables) : (assembler f).Plain (rsrcTable t).tail := by
  intro d hd
  simp only [rsrcTable, List.cons_append, List.nil_append, List.tail_cons, List.mem_cons,
    List.mem_append, List.mem_map, List.not_mem_nil, or_false] at hd
  rcases hd with rfl | rfl | ⟨x, _, rfl⟩ | rfl <;> rfl

lemma Dumped.opens (h : Dumped t win file out) :
    ∀ c ∈ out.chunks t, c.Opens (assembler f) := by
  intro c hc
  rcases List.mem_append.mp hc with hc | hc
  · obtain ⟨s, hs, rfl⟩ := List.mem_map.mp hc
    obtain ⟨x, hx⟩ := List.mem_iff_getElem?.mp hs
    obtain ⟨flags, type, hheader⟩ := sectionHeader_eq win s.sec
    refine ⟨?_, ?_, fun d hd => switch_of_inner f (run_inner (h.section_of hx).2 d hd)⟩
    · rw [SectionDump.chunk, h.header s hs, hheader]
      simp [Assembler.Quiet, assembler, gas, Directive.expand]
    · rw [SectionDump.chunk, h.header s hs, hheader]
      rfl
  · rw [List.mem_singleton.mp hc]
    exact ⟨fun _ hl => absurd hl List.not_mem_nil, rfl, rsrcTable_plain t⟩

lemma short_length {x : ℕ} (h : SectionAt file x sec) : sec.short.length ≤ 8 := by
  have hname : sec.name.length ≤ 8 := by
    rw [(peReadSectionHeader_some h.2).name, cstr]
    have htake := (List.takeWhile_prefix (l := (file.f.drop (peSectionHeaderOff file x)).take 8)
      (· ≠ (0 : UInt8))).length_le
    have := List.length_take_le 8 (file.f.drop (peSectionHeaderOff file x))
    omega
  unfold PeSection.short
  split_ifs
  · rw [List.length_tail]
    omega
  · exact hname

lemma Dumped.shorts_nodup (h : Dumped t win file out)
    (hnames : ∀ x y s u, SectionAt file x s → SectionAt file y u → s.short = u.short → x = y) :
    (out.sections.map fun s => s.sec.short).Nodup := by
  rw [List.nodup_iff_getElem?_ne_getElem?]
  intro i j hij hj heq
  rw [List.length_map] at hj
  have hi : i < out.sections.length := by omega
  simp only [List.getElem?_map, List.getElem?_eq_getElem hi, List.getElem?_eq_getElem hj,
    Option.map_some, Option.some.injEq] at heq
  have := hnames i j _ _ (h.section_of (List.getElem?_eq_getElem hi)).1
    (h.section_of (List.getElem?_eq_getElem hj)).1 heq
  omega

lemma Dumped.names_nodup (h : Dumped t win file out)
    (hnames : ∀ x y s u, SectionAt file x s → SectionAt file y u → s.short = u.short → x = y) :
    ((out.chunks t).map Assembler.Chunk.name).Nodup := by
  have hmap : (out.sections.map SectionDump.chunk).map Assembler.Chunk.name =
      (out.sections.map fun s => s.sec.short).map peSection := by
    simp [SectionDump.chunk, Function.comp_def]
  rw [AsmDump.chunks, List.map_append, hmap, List.nodup_append]
  refine ⟨(h.shorts_nodup hnames).map fun _ _ => peSection_inj, List.nodup_singleton _, ?_⟩
  intro a ha b hb heq
  rw [List.map_map] at ha
  obtain ⟨s, hs, rfl⟩ := List.mem_map.mp ha
  obtain ⟨x, hx⟩ := List.mem_iff_getElem?.mp hs
  have hlen := congrArg List.length (heq.trans (List.mem_singleton.mp hb))
  have hshort := short_length (h.section_of hx).1
  simp [peSection, rsrcChunk, rsrcSection, ascii] at hlen
  omega

lemma assigned_append (xs ys : List Directive) (name : CString) :
    assigned (xs ++ ys) name = (assigned xs name).or (assigned ys name) := List.findSome?_append

lemma assigned_inner {ds : List Directive} (h : ∀ d ∈ ds, d.inner = true) (name : CString) :
    assigned ds name = none := by
  rw [assigned, List.findSome?_eq_none_iff]
  intro d hd
  have := h d hd
  cases d <;> first | rfl | cases this

lemma assigned_header (win : Bool) (sec : PeSection) (name : CString) :
    assigned (sectionHeader win sec) name =
      if peAddr sec.short = name then some sec.address else none := by
  obtain ⟨flags, type, hheader⟩ := sectionHeader_eq win sec
  rw [hheader]
  by_cases h : peAddr sec.short = name <;> simp [assigned, h]

/-- The script knows the address of every section. -/
lemma Dumped.assigned (h : Dumped t win file out)
    (hnames : ∀ x y s u, SectionAt file x s → SectionAt file y u → s.short = u.short → x = y)
    {x : ℕ} {s : SectionDump} (hx : out.sections[x]? = some s) :
    assigned out.lines (peAddr s.sec.short) = some s.sec.address := by
  have hstart : Relink.assigned out.start (peAddr s.sec.short) = none := by
    simp [Relink.assigned, h.start, peAddr_ne_start]
  have hsections : ∀ ss : List SectionDump, (ss.map fun s => s.sec.short).Nodup →
      (∀ u ∈ ss, u ∈ out.sections) → s ∈ ss →
      Relink.assigned (ss.flatMap fun s => s.header ++ s.body.map Prod.snd) (peAddr s.sec.short) =
        some s.sec.address := by
    intro ss hnodup hsub hmem
    induction ss with
    | nil => cases hmem
    | cons u ss ih =>
      rw [List.map_cons, List.nodup_cons] at hnodup
      obtain ⟨y, hy⟩ := List.mem_iff_getElem?.mp (hsub u List.mem_cons_self)
      rw [List.flatMap_cons, assigned_append, assigned_append, h.header u (hsub u List.mem_cons_self),
        assigned_header, assigned_inner (run_inner (h.section_of hy).2), Option.or_none]
      rcases List.mem_cons.mp hmem with rfl | hmem
      · rw [if_pos rfl]
        rfl
      · have hne : u.sec.short ≠ s.sec.short := fun he =>
          hnodup.1 (he ▸ List.mem_map_of_mem hmem)
        rw [if_neg fun he => hne (peAddr_inj he)]
        exact ih hnodup.2 (fun v hv => hsub v (List.mem_cons_of_mem u hv)) hmem
  rw [AsmDump.lines, assigned_append, assigned_append, hstart,
    hsections out.sections (h.shorts_nodup hnames) (fun _ hu => hu) (List.mem_of_getElem? hx)]
  rfl


lemma Dumped.gas_contents (h : Dumped t win file out) (hfull : ∀ y b, ¬ BlockAt t y b 0) (name : CString) :
    (gas f).contents name firstSection out.lines =
      (assembler f).contents name firstSection out.lines := by
  have hswitch : (gas f).switch = (assembler f).switch := rfl
  refine Assembler.contents_congr hswitch ?_ name firstSection
  intro d hd
  exact (h.counted hfull d hd).gasEmit f

lemma Dumped.gas_symbols (h : Dumped t win file out) (hfull : ∀ y b, ¬ BlockAt t y b 0) (name : CString) :
    (gas f).symbols name firstSection 0 out.lines =
      (assembler f).symbols name firstSection 0 out.lines := by
  have hswitch : (gas f).switch = (assembler f).switch := rfl
  have hsymbol : (gas f).symbol = (assembler f).symbol := rfl
  refine Assembler.symbols_congr hswitch hsymbol ?_ name firstSection 0
  intro d hd
  exact (h.counted hfull d hd).gasEmit f

lemma Dumped.contents (h : Dumped t win file out)
    (hnames : ∀ x y s u, SectionAt file x s → SectionAt file y u → s.short = u.short → x = y)
    {c : Assembler.Chunk Directive CString} (hc : c ∈ out.chunks t) (hfirst : firstSection ≠ c.name) :
    (assembler f).contents c.name firstSection out.lines = expand (byteAt f) c.body ∧
      (assembler f).symbols c.name firstSection 0 out.lines = (assembler f).symbolsFrom 0 c.body := by
  rw [h.lines]
  exact Assembler.chunks_section h.start_quiet h.opens (h.names_nodup hnames) hc hfirst

lemma first_ne_section (name : CString) : firstSection ≠ peSection name := by
  intro h
  have := congrArg (·[1]?) h
  simp [firstSection, peSection, ascii] at this

lemma chunk_mem {s : SectionDump} (hs : s ∈ out.sections) : s.chunk ∈ out.chunks t :=
  List.mem_append_left _ (List.mem_map_of_mem hs)

end Metroskrew.Relink
