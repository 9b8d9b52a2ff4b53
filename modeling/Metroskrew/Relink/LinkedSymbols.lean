import Metroskrew.Relink.ExportLabels
import Metroskrew.Relink.Link

/-! The symbols of the relinked program. A line of the dump keeps the position of the section loop at
which it was printed, and that is where the assembler puts it. -/

namespace Metroskrew.Relink

open Metroskrew.Library.Linking Metroskrew.Library.Window Metroskrew.Patch.PatchMacros

/-- The symbols of the dump with their addresses. What stands in `.pe_text` is discarded. -/
def linkedSymbols (f : List UInt8) (out : AsmDump) (table : ℕ) : List (CString × ℕ) :=
  (ldSections.filter (· ≠ ascii "text")).flatMap (fun name =>
    match assigned out.lines (peAddr name) with
    | none => []
    | some address =>
      ((gas f).symbols (peSection name) firstSection 0 out.lines).map fun s =>
        (s.1, address + s.2)) ++
  ((gas f).symbols rsrcSection firstSection 0 out.lines).map fun s => (s.1, table + s.2)

/-- The address of a symbol; those that the dump does not set are set by the rest of the program. -/
def symbolValue (f : List UInt8) (out : AsmDump) (table : ℕ) (outside : CString → ℕ)
    (symbol : CString) : ℕ :=
  match (linkedSymbols f out table).find? fun s => s.1 = symbol with
  | none => outside symbol
  | some s => s.2

/-- The symbol a line sets; a block without bytes may be behind a slot of the same address. -/
def Directive.stands : Directive → Option CString
  | .label name => some name
  | .rsrcString id _ len => if len = 0 then none else some (rsrcSymbol id)
  | _ => none

variable {t : Tables} {win : Bool} {sec : PeSection} {f : List UInt8}

lemma mem_symbolsFrom (pos : ℕ) (before after : List Directive) {d : Directive} {symbol : CString}
    (hd : d.stands = some symbol) :
    (symbol, pos + (expand (byteAt f) before).length) ∈
      (assembler f).symbolsFrom pos (before ++ d :: after) := by
  have hsymbol : (assembler f).symbol d = some symbol := by
    cases d with
    | label name => exact hd
    | rsrcString id off len =>
      simp only [Directive.stands] at hd
      split_ifs at hd
      exact hd
    | _ => cases hd
  rw [Assembler.symbolsFrom_append, Assembler.symbolsFrom, hsymbol]
  exact List.mem_append_right _ (List.mem_append_left _ List.mem_cons_self)

lemma expand_flush_length {lastPos pos : ℕ} (hle : lastPos ≤ pos) :
    (expand (byteAt f) (flushTo sec lastPos pos)).length = pos - lastPos := by
  rw [expand_flush (fun i => .raw (fileByte (byteAt f) sec i)) hle fun _ _ _ => rfl, window_length]

lemma dumpFound_length (pos : ℕ) (found : Found) :
    (expand (byteAt f) (dumpFound win sec pos found).1).length = (dumpFound win sec pos found).2 := by
  rw [dumpFound_expand, dumpFound_size, List.length_append]
  cases found.imp <;> cases found.rsrc <;> simp [symbolBytes]

lemma dumpDoExport_expand (d : DumpExport) : expand (byteAt f) (dumpDoExport d).1 = [] := by
  cases h : d.name <;> simp [dumpDoExport, h, expand, Directive.expand]

/-- A line of a visit stands where the visit began. -/
lemma Tidy.found_symbols (ht : Tidy t sec) {pos : ℕ} {found : Found} (hle : pos ≤ sec.vsize)
    (hf : findAt t (sec.address + pos) = .ok found) {d : Directive} {symbol : CString}
    (hmem : d ∈ (dumpFound win sec pos found).1) (hd : d.stands = some symbol) :
    ∃ before after, (dumpFound win sec pos found).1 = before ++ d :: after ∧
      expand (byteAt f) before = [] := by
  have hk := ht.visitKind win hle hf
  have hlines : (dumpFound win sec pos found).1 =
      ((found.exp.map dumpDoExport).getD ([], 0)).1 ++
        (((found.imp.map (dumpDoImport win)).getD ([], 0)).1 ++
          ((found.rsrc.map fun r => dumpDoRsrcString r (sec.offset + pos)).getD ([], 0)).1) := by
    rw [dumpFound, List.append_assoc]
  rw [hlines] at hmem ⊢
  have hexp : expand (byteAt f) ((found.exp.map dumpDoExport).getD ([], 0)).1 = [] := by
    cases found.exp with
    | none => rfl
    | some e => exact dumpDoExport_expand e
  rcases List.mem_append.mp hmem with hmem | hmem
  · obtain ⟨before, after, hsplit⟩ := List.append_of_mem hmem
    rw [hsplit, expand_append] at hexp
    exact ⟨before, _, by rw [hsplit, List.append_assoc]; rfl, (List.append_eq_nil_iff.mp hexp).1⟩
  · rcases List.mem_append.mp hmem with hmem | hmem
    · cases hi : found.imp <;> simp [hi, dumpDoImport] at hmem
      rw [hmem] at hd
      cases hd
    · cases hr : found.rsrc with
      | none => simp [hr] at hmem
      | some r =>
        obtain rfl : d = .rsrcString r.id (sec.offset + pos) r.size := by
          simpa [hr, dumpDoRsrcString] using hmem
        have hsize : r.size ≠ 0 := by
          intro hz
          simp [Directive.stands, hz] at hd
        have himp : found.imp = none := by
          cases hi : found.imp with
          | none => rfl
          | some e =>
            exfalso
            generalize (dumpFound win sec pos found).2 = size at hk
            cases hk with
            | slot _ _ _ hempty => exact hsize (hempty r hr)
            | block _ hno _ _ _ => rw [hi] at hno; cases hno
            | plain _ hno _ => rw [hi] at hno; cases hno
        refine ⟨((found.exp.map dumpDoExport).getD ([], 0)).1, [], ?_, hexp⟩
        simp [himp, dumpDoRsrcString]

/-- The location counter agrees with the position of the loop. -/
lemma run_symbols (ht : Tidy t sec) {pos lastPos : ℕ} {ds : List (ℕ × Directive)}
    (h : Run t win sec pos lastPos ds) (hle : lastPos ≤ pos) :
    ∀ line ∈ ds, ∀ symbol, line.2.stands = some symbol →
      (symbol, line.1) ∈ (assembler f).symbolsFrom lastPos (ds.map Prod.snd) := by
  induction h with
  | done hgt => simp
  | skip hlt hf hd _ ih => exact ih (by omega)
  | @visit pos lastPos found ds hpos hf _ ih =>
    intro line hl symbol hsymbol
    have hmap : ((visitLines win sec pos lastPos found).map fun line => (pos, line)).map Prod.snd =
        visitLines win sec pos lastPos found := by simp [Function.comp_def]
    have hlen : (expand (byteAt f) (visitLines win sec pos lastPos found)).length =
        pos - lastPos + (dumpFound win sec pos found).2 := by
      rw [visitLines, expand_append, List.length_append, expand_flush_length hle, dumpFound_length]
    rw [List.map_append, hmap]
    rcases List.mem_append.mp hl with hl | hl
    · obtain ⟨d, hd, rfl⟩ := List.mem_map.mp hl
      rcases List.mem_append.mp hd with hd | hd
      · exfalso
        unfold flushTo at hd
        split_ifs at hd <;> simp at hd
        · rw [hd] at hsymbol
          cases hsymbol
        · rcases hd with rfl | rfl <;> cases hsymbol
        · rw [hd] at hsymbol
          cases hsymbol
      · obtain ⟨before, after, hsplit, hempty⟩ := ht.found_symbols (f := f) hpos hf hd hsymbol
        have hat := mem_symbolsFrom (f := f) lastPos (flushTo sec lastPos pos ++ before)
          (after ++ ds.map Prod.snd) hsymbol
        rw [expand_append, hempty, List.append_nil, expand_flush_length hle,
          Nat.add_sub_cancel' hle] at hat
        rw [visitLines, hsplit]
        simpa using hat
    · rw [Assembler.symbolsFrom_append]
      apply List.mem_append_right
      have hnext : lastPos + ((assembler f).emitted (visitLines win sec pos lastPos found)).length =
          (afterVisit pos (dumpFound win sec pos found).2).2 := by
        have : ((assembler f).emitted (visitLines win sec pos lastPos found)).length =
          pos - lastPos + (dumpFound win sec pos found).2 := hlen
        unfold afterVisit
        split_ifs <;> dsimp only <;> omega
      rw [hnext]
      refine ih ?_ line hl symbol hsymbol
      unfold afterVisit
      split_ifs <;> dsimp only <;> omega

lemma find_of_mem {β : Type} {l : List (CString × β)} (hnodup : (l.map Prod.fst).Nodup)
    {symbol : CString} {b : β} (h : (symbol, b) ∈ l) :
    l.find? (fun s => decide (s.1 = symbol)) = some (symbol, b) := by
  induction l with
  | nil => cases h
  | cons s l ih =>
    rw [List.map_cons, List.nodup_cons] at hnodup
    rw [List.find?_cons]
    rcases List.mem_cons.mp h with rfl | h
    · simp
    · have hne : s.1 ≠ symbol := fun he => hnodup.1 (he ▸ List.mem_map_of_mem h)
      simpa [hne] using ih hnodup.2 h

variable {file : PeFile} {out : AsmDump} {uses : List Use} {text : List UInt8} {table : ℕ}
  {rest : List (Placement OutByte)}

lemma symbolValue_of_mem (hunique : ((linkedSymbols f out table).map Prod.fst).Nodup)
    (outside : CString → ℕ) {symbol : CString} {a : ℕ}
    (h : (symbol, a) ∈ linkedSymbols f out table) :
    symbolValue f out table outside symbol = a := by
  rw [symbolValue, find_of_mem hunique h]

/-- A symbol that a section is dumped with is at the address of its place in the executable. -/
lemma Linkable.symbolValue (hl : Linkable t file uses text table rest) (h : Dumped t win file out)
    (hunique : ((linkedSymbols f out table).map Prod.fst).Nodup) (outside : CString → ℕ) {x : ℕ}
    {s : SectionDump} (hx : out.sections[x]? = some s) (hld : s.sec.short ∈ ldSections)
    (htext : s.sec.short ≠ ascii "text") {line : ℕ × Directive} (hline : line ∈ s.body)
    {symbol : CString} (hsymbol : line.2.stands = some symbol) :
    Relink.symbolValue f out table outside symbol = s.sec.address + line.1 := by
  obtain ⟨hsec, hrun⟩ := h.section_of hx
  apply symbolValue_of_mem hunique
  refine List.mem_append_left _ (List.mem_flatMap.mpr ⟨s.sec.short, ?_, ?_⟩)
  · exact List.mem_filter.mpr ⟨hld, by simpa using htext⟩
  · have hsymbols := (h.contents (f := f) hl.names (chunk_mem (List.mem_of_getElem? hx))
      (first_ne_section _)).2
    simp only [h.assigned hl.names hx]
    refine List.mem_map.mpr ⟨(symbol, line.1), ?_, rfl⟩
    rw [h.gas_symbols hl.full]
    exact hsymbols ▸ run_symbols (hl.fits x _ hsec hld htext).toTidy hrun le_rfl line hline symbol
      hsymbol

/-- The symbol of the table of string blocks is where the table is put. -/
lemma Linkable.table_symbol (hl : Linkable t file uses text table rest) (h : Dumped t win file out)
    (hunique : ((linkedSymbols f out table).map Prod.fst).Nodup) (outside : CString → ℕ) :
    Relink.symbolValue f out table outside (ascii "pe_rsrc_strings") = table := by
  apply symbolValue_of_mem hunique
  apply List.mem_append_right
  have hsymbols := (h.contents (f := f) hl.names
    (List.mem_append_right _ List.mem_cons_self : rsrcChunk t ∈ out.chunks t)
    (show firstSection ≠ rsrcSection by decide)).2
  refine List.mem_map.mpr ⟨(ascii "pe_rsrc_strings", 0), ?_, rfl⟩
  rw [h.gas_symbols hl.full]
  exact hsymbols ▸ mem_symbolsFrom 0 [.globl (ascii "pe_rsrc_strings")] _ rfl

/-- Where the dump keeps the labels of the exported functions, all the labels of one whose section the
script places, and not the text, whose labels are discarded, are at the function's own address in
the relinked program. -/
theorem exports_linked (win : Bool) (file : PeFile) (t : Tables) (out : AsmDump) (uses : List Use)
    (text : List UInt8) (table : ℕ) (rest : List (Placement OutByte)) (outside : CString → ℕ)
    (ht : readTables file = .ok t) (hout : dumpAsm win file = .ok out)
    (hl : Linkable t file uses text table rest) (hplain : PlainExports t)
    (hunique : ((linkedSymbols file.f out table).map Prod.fst).Nodup) (x k : ℕ) (s : PeSection)
    (hx : x < t.exports.funcNum) (hsec : SectionAt file k s) (hold : Holds s (exportAddr t x))
    (hld : s.short ∈ ldSections) (htext : s.short ≠ ascii "text") :
    ∃ (dllname : CString) (names : ℕ → Option CString),
      peReadName file t.exports.dllname = some dllname ∧ ExportName file x (names x) ∧
      ∀ label ∈ exportLabels dllname names x,
        symbolValue file.f out table outside label = exportAddr t x := by
  have h := dumpAsm_dumped ht hout
  obtain rfl := readTables_file ht
  obtain ⟨out', dllname, names, hout', hdll, hnames, hlabels⟩ := hplain.labels win ht
  obtain rfl : out = out' := Except.ok.inj (hout.symm.trans hout')
  obtain ⟨i, u, hi, huold, hperm⟩ := hlabels x hx
  obtain rfl : i = k := by
    by_contra hne
    exact hl.apart i k _ _ _ hne (h.section_of hi).1 hsec huold hold
  obtain rfl : u.sec = s := Option.some.inj ((h.section_of hi).1.2.symm.trans hsec.2)
  refine ⟨dllname, names, hdll (by omega), hnames x hx, fun label hlabel => ?_⟩
  have hpicked : label ∈ u.pickAt Directive.label? (exportAddr t x) :=
    hperm.mem_iff.mpr (List.mem_flatMap.mpr ⟨x, mem_sharing.mpr ⟨hx, rfl⟩, hlabel⟩)
  rw [SectionDump.pickAt, if_pos huold.1, pick, List.mem_filterMap] at hpicked
  obtain ⟨line, hline, hpick⟩ := hpicked
  split_ifs at hpick with htag
  have hstands : line.2.stands = some label := by
    cases hd : line.2 <;> simp only [hd, Directive.label?, reduceCtorEq] at hpick
    exact hpick
  rw [hl.symbolValue h hunique outside hi hld htext hline hstands, htag]
  exact Nat.add_sub_cancel' huold.1

section Startup

open Metroskrew.Patch.Hooks

lemma startup_exports {x : ℕ} (hx : x < 2) :
    Holds (startupSections.getD 2 textSection) (exportAddr startupTables x) := by
  interval_cases x <;> exact ⟨by decide, by decide⟩

lemma startup_names_read : lastName (exportNames startupFile) 0 = some 0x303a ∧
    lastName (exportNames startupFile) 1 = none ∧
    peReadName startupFile 0x303a = some (ascii "g") ∧
    peReadName startupFile startupTables.exports.dllname = some (ascii "d") ∧
    ((linkedSymbols startupFile.f startupDump 0x420000).map Prod.fst).Nodup := by
  decide +kernel

lemma startup_plain : PlainExports startupTables where
  readable := readable_of_dumpAsm startup_read.1 startup_read.2.1
  names := by
    intro x hx rva hrva
    have hx' : x < 2 := hx
    obtain ⟨hfirst, hsecond, hread, -⟩ := startup_names_read
    interval_cases x
    · obtain rfl := Option.some.inj (hrva.symm.trans hfirst)
      exact ⟨ascii "g", hread, by decide⟩
    · cases hrva.symm.trans hsecond
  reached := by
    intro x hx
    have hx' : x < 2 := hx
    have hold := startup_exports hx'
    have hend : (startupSections.getD 2 textSection).address + 0x58 = 0x403058 := by decide
    have hsize : (startupSections.getD 2 textSection).vsize = 0x58 := by decide
    obtain ⟨hlo, hhi⟩ := hold
    have hitem : ∀ i a n, ItemAt startupTables i a n → 0x403058 < a := by
      intro i a n hi
      rcases startup_itemAt hi with (⟨_, rfl, _⟩ | ⟨_, rfl, _⟩) | ⟨_, rfl, _⟩ | ⟨_, rfl, _⟩ <;> decide
    refine ⟨2, _, startup_section (by decide), ⟨hlo, hhi⟩, ?_⟩
    apply reached_outside (by omega) (Nat.zero_le _)
    · intro y a hslot
      have := hitem (.inl y) a 4 ⟨hslot, rfl⟩
      omega
    · intro y b n hblock
      by_cases hn : n = 0
      · exact absurd (hn ▸ hblock) ((startup_linkable startup_text_made.choose_spec).full y b)
      · have := hitem (.inr y) b n ⟨hblock, hn⟩
        omega
    · intro y z a n hslot hblock
      by_contra hn
      have := startup_placed.items_apart (.inl y) (.inr z) a a 4 n (by simp) ⟨hslot, rfl⟩ ⟨hblock, hn⟩
      omega
  own := by
    intro x hx
    have hx' : x < 2 := hx
    obtain ⟨hfirst, hsecond, -⟩ := startup_names_read
    interval_cases x
    · exact .inl ⟨by decide, iff_of_true (fun h => Option.some_ne_none _ (hfirst.symm.trans h)) (by decide)⟩
    · exact .inl ⟨by decide, iff_of_false (fun h => h hsecond) (by decide)⟩

theorem exports_linked_startup : dumpAsm false startupFile = .ok startupDump ∧
    symbolValue startupImage startupDump 0x420000 (fun _ => 0) (ascii "g") = 0x403050 ∧
    symbolValue startupImage startupDump 0x420000 (fun _ => 0) (ascii "_d_1") = 0x403054 := by
  obtain ⟨text, htext⟩ := startup_text_made
  obtain ⟨hfirst, -, hread, hd, hunique⟩ := startup_names_read
  have hlabels := fun x (hx : x < 2) => exports_linked false startupFile startupTables startupDump
    startupUses text 0x420000 startupRest (fun _ => 0) startup_read.1 startup_read.2.1
    (startup_linkable htext) startup_plain hunique x 2 _ hx (startup_section (by decide))
    (startup_exports hx) (by decide) (by decide)
  refine ⟨startup_read.2.1, ?_, ?_⟩
  · obtain ⟨dllname, names, -, hname⟩ := hlabels 0 (by decide)
    rw [ExportName, hfirst] at hname
    obtain ⟨⟨text, hread', hname⟩, hvalue⟩ := hname
    obtain rfl := Option.some.inj (hread'.symm.trans hread)
    refine hvalue (ascii "g") (List.mem_cons_of_mem _ ?_)
    rw [hname]
    exact List.mem_singleton.mpr rfl
  · obtain ⟨dllname, names, hdll, -, hvalue⟩ := hlabels 1 (by decide)
    obtain rfl := Option.some.inj (hdll.symm.trans hd)
    have hlabel : ascii "_d_1" = ascii "_" ++ ascii "d" ++ ascii "_" ++ hex 1 := by decide
    rw [hlabel]
    exact hvalue _ List.mem_cons_self

end Startup

end Metroskrew.Relink
