import Metroskrew.Relink.ExportTable
import Metroskrew.Relink.WrittenDump
import Mathlib.Data.List.Perm.Basic

/-! The labels of the exported functions: what `dump_do_export` prints for an address, against what the
export directory says of all the functions that have it. -/

namespace Metroskrew.Relink

variable {t : Tables} {win : Bool} {sec : PeSection}

def Directive.label? : Directive → Option CString
  | .label name => some name
  | _ => none

def exportNames (file : PeFile) : List (ℕ × ℕ) :=
  match peGetDatadir file 0 with
  | none => []
  | some (addr, size) =>
    if addr = 0 ∨ size = 0 then []
    else
      match peFindFileOffset file addr with
      | none => []
      | some off =>
        exportEntries file ((readU32 file.f (off + 0x20) : ℤ) - addr + off).toNat
          ((readU32 file.f (off + 0x24) : ℤ) - addr + off).toNat (exportNameNum file off)

/-- The name the directory has for function `x`, if it has one. -/
def ExportName (file : PeFile) (x : ℕ) (name : Option CString) : Prop :=
  match lastName (exportNames file) x with
  | none => name = none
  | some rva => ∃ text, peReadName file rva = some text ∧ name = some text

variable (t) in
def exportAddr (x : ℕ) : ℕ := t.exports.funcAddr.getD x 0

variable (t) in
/-- The functions that have an address, of which `dump_find_export` knows only the first. -/
def sharing (a : ℕ) : List ℕ := (List.range t.exports.funcNum).filter fun x => exportAddr t x = a

/-- The labels that a function should have: one of its ordinal, and one of its name if it has one. -/
def exportLabels (dllname : CString) (names : ℕ → Option CString) (x : ℕ) : List CString :=
  (ascii "_" ++ dllname ++ ascii "_" ++ hex x) :: (names x).toList

variable (t win) in
/-- The dump is written, and for the address of each function the labels of all functions that have
this address are printed, in the section that holds it, and no others. -/
def KeepsLabels : Prop :=
  ∃ (out : AsmDump) (dllname : CString) (names : ℕ → Option CString),
    dumpAsm win t.file = .ok out ∧
    (t.exports.funcNum ≠ 0 → peReadName t.file t.exports.dllname = some dllname) ∧
    (∀ x < t.exports.funcNum, ExportName t.file x (names x)) ∧
    ∀ x < t.exports.funcNum, ∃ (i : ℕ) (s : SectionDump), out.sections[i]? = some s ∧
      Holds s.sec (exportAddr t x) ∧ (s.pickAt Directive.label? (exportAddr t x)).Perm
        ((sharing t (exportAddr t x)).flatMap (exportLabels dllname names))

variable (t) in
/-- Neither function is named, but the first number is below `name_num`, and the text at address 0 that
is read as its name is the label that the second one lacks. -/
structure Mistaken (y z : ℕ) : Prop where
  unnamed : lastName (exportNames t.file) y = none ∧ lastName (exportNames t.file) z = none
  guard : y < t.exports.nameNum
  misread : ∃ dllname text, peReadName t.file t.exports.dllname = some dllname ∧
    peReadName t.file 0 = some text ∧ cutAt text = ordinalSymbol dllname z

variable (t) in
/-- What is looked up can be read, names have no `@`, the loop comes to every function, and each has
an address of its own and a name exactly when its number is below `name_num`. -/
structure PlainExports : Prop where
  readable : Readable t
  names : ∀ x < t.exports.funcNum, ∀ rva, lastName (exportNames t.file) x = some rva →
    ∃ text, peReadName t.file rva = some text ∧ 0x40 ∉ text
  reached : ∀ x < t.exports.funcNum, ∃ k sec, SectionAt t.file k sec ∧ Holds sec (exportAddr t x) ∧
    Reached t sec 0 (exportAddr t x - sec.address)
  own : ∀ x < t.exports.funcNum,
    (sharing t (exportAddr t x) = [x] ∧
      (lastName (exportNames t.file) x ≠ none ↔ x < t.exports.nameNum)) ∨
    ∃ y z, sharing t (exportAddr t x) = [y, z] ∧ Mistaken t y z

/-- An address outside every slot and block is reached, unless one of each starts in the same place
and they are jumped over together. -/
lemma reached_outside {pos p : ℕ} (hle : p ≤ sec.vsize) (hpos : pos ≤ p)
    (hslot : ∀ x a, SlotAt t x a → sec.address + p < a ∨ a + 4 ≤ sec.address + p ∨ a = sec.address + p)
    (hblock : ∀ y b n, BlockAt t y b n → sec.address + p < b ∨ b + n ≤ sec.address + p ∨
      b = sec.address + p)
    (hapart : ∀ x y a n, SlotAt t x a → BlockAt t y a n → n = 0) : Reached t sec pos p := by
  induction hk : p - pos using Nat.strong_induction_on generalizing pos with
  | _ k ih =>
    rcases eq_or_lt_of_le hpos with rfl | hlt
    · exact .here
    · have hroom : room t (sec.address + pos) ≤ p - pos := by
        rw [room]
        cases hr : dumpFindRsrcString t (sec.address + pos) with
        | none =>
          split_ifs with hmem
          · obtain ⟨x, hx⟩ := List.mem_iff_getElem?.mp hmem
            have := hslot x _ hx
            simp only [Option.map_none, Option.getD_none]
            omega
          · simp
        | some d =>
          obtain ⟨y, hy, _, _⟩ := findRsrc_some hr
          have := hblock y _ _ hy
          simp only [Option.map_some, Option.getD_some]
          split_ifs with hmem
          · obtain ⟨x, hx⟩ := List.mem_iff_getElem?.mp hmem
            have := hapart x y _ _ hx hy
            have := hslot x _ hx
            omega
          · omega
      have hnext : (afterVisit pos (room t (sec.address + pos))).1 ≤ p := by
        unfold afterVisit
        split_ifs <;> dsimp only <;> omega
      have hgt := afterVisit_lt pos (room t (sec.address + pos))
      exact .next (by omega) (ih _ (by omega) hnext rfl)

lemma exports_names {file : PeFile} {exports : PeExport}
    (h : peReadExportTable file = some exports) :
    exports.funcAddr.length = exports.funcNum ∧
      ∀ x < exports.funcNum, exports.nameAddr.getD x 0 = (lastName (exportNames file) x).getD 0 := by
  cases hdir : peGetDatadir file 0 with
  | none => simp [peReadExportTable, hdir] at h
  | some entry =>
    obtain ⟨addr, size⟩ := entry
    by_cases hno : addr = 0 ∨ size = 0
    · simp only [peReadExportTable, hdir, bind, Option.bind_some, if_pos hno, Option.some.injEq] at h
      subst h
      simp
    · rw [not_or] at hno
      cases hoff : peFindFileOffset file addr with
      | none => simp [peReadExportTable, hdir, hno, hoff] at h
      | some off =>
        obtain ⟨funcs, names, ords, hread, rfl⟩ :=
          (peReadExportTable_iff hdir hno.1 hno.2 hoff).mp h
        have hnames : exportNames file =
            exportEntries file names ords (exportNameNum file off) := by
          simp only [exportNames, hdir, if_neg (not_or.mpr hno), hoff, hread.names_at, hread.ords_at,
            Int.toNat_natCast]
        refine ⟨by simp [readExports], fun x hx => ?_⟩
        have hx' : x < exportFuncNum file off := hx
        rw [hnames]
        simp [readExports, hx']

lemma dumpExportAt_ok {x : ℕ} {d : DumpExport} (h : dumpExportAt t x = .ok d) :
    d.num = x ∧ peReadName t.file t.exports.dllname = some d.dllname ∧
      (if x < t.exports.nameNum then
        ∃ text, peReadName t.file (t.exports.nameAddr.getD x 0) = some text ∧ d.name = some text
      else d.name = none) := by
  rw [dumpExportAt] at h
  cases hdll : peReadName t.file t.exports.dllname with
  | none => simp [orFail, hdll, bind, Except.bind] at h
  | some dll =>
    by_cases hx : x < t.exports.nameNum
    · cases hname : peReadName t.file (t.exports.nameAddr.getD x 0) with
      | none => simp only [orFail, hdll, bind, Except.bind, if_pos hx, hname, reduceCtorEq] at h
      | some text =>
        simp only [orFail, hdll, bind, Except.bind, if_pos hx, hname, pure, Except.pure,
          Except.ok.injEq] at h
        subst h
        rw [if_pos hx]
        exact ⟨rfl, rfl, text, rfl, rfl⟩
    · simp only [orFail, hdll, bind, Except.bind, if_neg hx, pure, Except.pure,
        Except.ok.injEq] at h
      subst h
      rw [if_neg hx]
      exact ⟨rfl, rfl, rfl⟩

lemma funcAddr_get {x : ℕ} (hx : x < t.exports.funcAddr.length) :
    t.exports.funcAddr[x]? = some (exportAddr t x) := by
  rw [exportAddr, List.getD_eq_getElem?_getD, List.getElem?_eq_getElem hx, Option.getD_some]

lemma dumpFindExport_some {a : ℕ} {d : DumpExport} (h : dumpFindExport t a = .ok (some d)) :
    t.exports.funcAddr[d.num]? = some a ∧ (∀ y < d.num, t.exports.funcAddr[y]? ≠ some a) ∧
      dumpExportAt t d.num = .ok d := by
  obtain ⟨x, hx, hfirst, hread⟩ := findFirst_some h
  obtain ⟨rfl, -⟩ := dumpExportAt_ok hread
  exact ⟨hx, hfirst, hread⟩

lemma mem_sharing {x a : ℕ} : x ∈ sharing t a ↔ x < t.exports.funcNum ∧ exportAddr t x = a := by
  simp [sharing]

lemma sharing_first {a : ℕ} {d : DumpExport} (hlen : t.exports.funcAddr.length = t.exports.funcNum)
    (h : dumpFindExport t a = .ok (some d)) : ∃ rest, sharing t a = d.num :: rest := by
  obtain ⟨hx, hfirst, _⟩ := dumpFindExport_some h
  have hlt : d.num < t.exports.funcNum := by
    have := (List.getElem?_eq_some_iff.mp hx).1
    omega
  obtain ⟨k, hk⟩ := Nat.exists_eq_add_of_le (Nat.succ_le_of_lt hlt)
  have hnone : (List.range d.num).filter (fun x => exportAddr t x = a) = [] := by
    apply List.filter_eq_nil_iff.mpr
    intro y hy
    rw [List.mem_range] at hy
    have := hfirst y hy
    rw [funcAddr_get (by omega)] at this
    simpa using this
  have hself : exportAddr t d.num = a := by
    rw [exportAddr, List.getD_eq_getElem?_getD, hx, Option.getD_some]
  rw [sharing, hk, List.range_add, List.range_succ]
  simp [hnone, hself]

/-- The labels of what `dump_find_export` has found. -/
def printedLabels (d : DumpExport) : List CString :=
  ordinalSymbol d.dllname d.num :: (d.name.map cutAt).toList

lemma found_labels (p : ℕ) (found : Found) :
    (dumpFound win sec p found).1.filterMap Directive.label? =
      (found.exp.map printedLabels).getD [] := by
  cases he : found.exp with
  | none => cases hi : found.imp <;> cases hr : found.rsrc <;>
      simp [dumpFound, he, hi, hr, dumpDoImport, dumpDoRsrcString, Directive.label?]
  | some d =>
    cases hd : d.name <;> cases hi : found.imp <;> cases hr : found.rsrc <;>
      simp [dumpFound, he, hi, hr, hd, dumpDoExport, dumpDoImport, dumpDoRsrcString, List.filterMap_cons,
        Directive.label?, printedLabels]

variable {file : PeFile} {out : AsmDump}

lemma Written.labels_at (hw : Written t win file out) {i a : ℕ}
    {s : SectionDump} (hi : out.sections[i]? = some s) (hold : Holds s.sec a)
    (hreach : Reached t s.sec 0 (a - s.sec.address)) : ∃ exp, dumpFindExport t a = .ok exp ∧
      s.pickAt Directive.label? a = (exp.map printedLabels).getD [] := by
  have hle : a - s.sec.address ≤ s.sec.vsize := by
    have := hold.2
    omega
  obtain ⟨found, hf, hpick⟩ := run_reached (g := Directive.label?) (fun _ _ => rfl) (fun _ => rfl)
    (hw.section_of hi).2 hreach hle
  rw [Nat.add_sub_cancel' hold.1] at hf
  exact ⟨found.exp, (findAt_ok hf).1, by rw [SectionDump.pickAt, if_pos hold.1, hpick, found_labels]⟩

lemma Written.pick_reached (hw : Written t win file out) {β : Type} {g : Directive → Option β} {b : β}
    {i a : ℕ} {s : SectionDump} (hi : out.sections[i]? = some s) (hold : Holds s.sec a)
    (hb : b ∈ s.pickAt g a) : Reached t s.sec 0 (a - s.sec.address) := by
  rw [SectionDump.pickAt, if_pos hold.1, pick, List.mem_filterMap] at hb
  obtain ⟨line, hline, hpick⟩ := hb
  have htag : line.1 = a - s.sec.address := by
    by_contra hne
    rw [if_neg hne] at hpick
    cases hpick
  exact htag ▸ run_tag_reached (hw.section_of hi).2 line hline

/-- The function that is found is printed; it stands for one function, or for two without a name. -/
lemma labels_perm {dllname : CString} {names : ℕ → Option CString} {name : Option CString} {y : ℕ}
    {rest : List ℕ} : (ordinalSymbol dllname y :: name.toList).Perm
      ((y :: rest).flatMap (exportLabels dllname names)) ↔
    (rest = [] ∧ name = names y) ∨
      ∃ z, rest = [z] ∧ names y = none ∧ names z = none ∧ name = some (ordinalSymbol dllname z) := by
  have hcons : (y :: rest).flatMap (exportLabels dllname names) =
      ordinalSymbol dllname y :: ((names y).toList ++ rest.flatMap (exportLabels dllname names)) := by
    rw [List.flatMap_cons, exportLabels, List.cons_append]
    rfl
  rw [hcons, List.perm_cons]
  cases rest with
  | nil =>
    rw [List.flatMap_nil, List.append_nil]
    cases name <;> cases names y <;> simp
  | cons z rest =>
    have hz : (z :: rest).flatMap (exportLabels dllname names) =
        ordinalSymbol dllname z :: ((names z).toList ++ rest.flatMap (exportLabels dllname names)) := by
      rw [List.flatMap_cons, exportLabels, List.cons_append]
      rfl
    rw [hz]
    constructor
    · intro hperm
      have hlen := hperm.length_eq
      cases name with
      | none => simp at hlen
      | some label =>
        cases hy : names y with
        | some text => simp [hy] at hlen
        | none =>
          cases hzn : names z with
          | some text => simp [hy, hzn] at hlen
          | none =>
            rw [hy, hzn] at hperm
            cases rest with
            | cons w rest => simp [hy, hzn, exportLabels] at hlen
            | nil => exact .inr ⟨z, rfl, rfl, hzn, by simpa using hperm⟩
    · rintro (⟨hnil, _⟩ | ⟨w, hw, hy, hzn, rfl⟩)
      · cases hnil
      · obtain ⟨rfl, rfl⟩ := List.cons.inj hw
        simp [hy, hzn]

lemma exportName_none {file : PeFile} {x : ℕ} {name : Option CString} (h : ExportName file x name) :
    name = none ↔ lastName (exportNames file) x = none := by
  unfold ExportName at h
  cases hlast : lastName (exportNames file) x with
  | none =>
    rw [hlast] at h
    exact ⟨fun _ => rfl, fun _ => h⟩
  | some rva =>
    rw [hlast] at h
    obtain ⟨text, _, rfl⟩ := h
    simp

lemma cutAt_eq_self {name : CString} : cutAt name = name ↔ 0x40 ∉ name := by
  rw [cutAt, List.takeWhile_eq_self_iff]
  constructor
  · intro h hmem
    simpa using h 0x40 hmem
  · intro h c hc
    have hne : c ≠ 0x40 := fun he => h (he ▸ hc)
    simpa using hne

lemma dumpExportAt_named {x : ℕ} {d : DumpExport} (h : dumpExportAt t x = .ok d) :
    d.name = none ↔ ¬ x < t.exports.nameNum := by
  obtain ⟨_, _, hname⟩ := dumpExportAt_ok h
  split_ifs at hname with hx
  · obtain ⟨text, _, hname⟩ := hname
    simp [hname, hx]
  · simp [hname, hx]

lemma Written.found (hw : Written t win t.file out)
    (ht : readTables t.file = .ok t) {x i : ℕ} {s : SectionDump} (hx : x < t.exports.funcNum)
    (hi : out.sections[i]? = some s) (hold : Holds s.sec (exportAddr t x))
    (hreach : Reached t s.sec 0 (exportAddr t x - s.sec.address)) :
    ∃ d rest, dumpExportAt t d.num = .ok d ∧ sharing t (exportAddr t x) = d.num :: rest ∧
      s.pickAt Directive.label? (exportAddr t x) = printedLabels d := by
  obtain ⟨hlen, _⟩ := exports_names (readTables_ok ht).2
  obtain ⟨exp, hfind, hpick⟩ := hw.labels_at hi hold hreach
  cases exp with
  | none => exact absurd (funcAddr_get (by omega)) (findFirst_none hfind x)
  | some d =>
    obtain ⟨rest, hrest⟩ := sharing_first hlen hfind
    exact ⟨d, rest, (dumpFindExport_some hfind).2.2, hrest, hpick⟩

lemma KeepsLabels.plain (ht : readTables t.file = .ok t) (h : KeepsLabels t win) :
    PlainExports t := by
  obtain ⟨out, dllname, names, hout, hdll, hnames, hlabels⟩ := h
  have hw := dumpAsm_written ht hout
  have hnameAddr := (exports_names (readTables_ok ht).2).2
  have hreached : ∀ x < t.exports.funcNum, ∃ k sec, SectionAt t.file k sec ∧
      Holds sec (exportAddr t x) ∧ Reached t sec 0 (exportAddr t x - sec.address) ∧
      ∃ d rest, dumpExportAt t d.num = .ok d ∧ sharing t (exportAddr t x) = d.num :: rest ∧
        (printedLabels d).Perm ((d.num :: rest).flatMap (exportLabels dllname names)) := by
    intro x hx
    obtain ⟨i, s, hi, hold, hperm⟩ := hlabels x hx
    have hlabel : ordinalSymbol dllname x ∈ s.pickAt Directive.label? (exportAddr t x) :=
      hperm.mem_iff.mpr (List.mem_flatMap.mpr ⟨x, mem_sharing.mpr ⟨hx, rfl⟩, List.mem_cons_self⟩)
    have hreach := hw.pick_reached hi hold hlabel
    obtain ⟨d, rest, hat, hrest, hpick⟩ := hw.found ht hx hi hold hreach
    rw [hpick, hrest] at hperm
    exact ⟨i, s.sec, (hw.section_of hi).1, hold, hreach, d, rest, hat, hrest, hperm⟩
  -- one function is found for the address: it is the only one there, or there are two without names
  have hkept : ∀ x < t.exports.funcNum, ∃ d, dumpExportAt t d.num = .ok d ∧
      ((sharing t (exportAddr t x) = [d.num] ∧ x = d.num ∧ d.name.map cutAt = names x) ∨
        ∃ z, sharing t (exportAddr t x) = [d.num, z] ∧ names d.num = none ∧ names z = none ∧
          names x = none ∧ d.name.map cutAt = some (ordinalSymbol dllname z)) := by
    intro x hx
    obtain ⟨_, _, _, _, _, d, rest, hat, hrest, hperm⟩ := hreached x hx
    have hxs : x ∈ d.num :: rest := hrest ▸ mem_sharing.mpr ⟨hx, rfl⟩
    obtain rfl : d.dllname = dllname :=
      Option.some.inj ((dumpExportAt_ok hat).2.1.symm.trans (hdll (by omega)))
    refine ⟨d, hat, ?_⟩
    rcases labels_perm.mp hperm with ⟨rfl, hkeep⟩ | ⟨z, rfl, hy, hz, hkeep⟩
    · obtain rfl := List.mem_singleton.mp hxs
      exact .inl ⟨hrest, rfl, hkeep⟩
    · have hxn : names x = none := by
        rcases List.mem_cons.mp hxs with rfl | hxz
        · exact hy
        · exact List.mem_singleton.mp hxz ▸ hz
      exact .inr ⟨z, hrest, hy, hz, hxn, hkeep⟩
  constructor
  · exact readable_of_dumpAsm ht hout
  · intro x hx rva hrva
    have hname := hnames x hx
    rw [ExportName, hrva] at hname
    obtain ⟨text, hread, htext⟩ := hname
    obtain ⟨d, _, ⟨_, _, hkeep⟩ | ⟨z, _, _, _, hxn, _⟩⟩ := hkept x hx
    · rw [htext, Option.map_eq_some_iff] at hkeep
      obtain ⟨full, _, rfl⟩ := hkeep
      refine ⟨_, hread, fun hat => ?_⟩
      simpa using List.mem_takeWhile_imp hat
    · rw [htext] at hxn
      cases hxn
  · intro x hx
    obtain ⟨k, sec, hsec, hold, hreach, _⟩ := hreached x hx
    exact ⟨k, sec, hsec, hold, hreach⟩
  · intro x hx
    obtain ⟨d, hat, ⟨hrest, rfl, hkeep⟩ | ⟨z, hrest, hy, hz, _, hkeep⟩⟩ := hkept x hx
    · refine .inl ⟨hrest, ?_⟩
      rw [Ne, ← exportName_none (hnames _ hx), ← hkeep, Option.map_eq_none_iff,
        dumpExportAt_named hat, not_not]
    · have hlt : ∀ w ∈ [d.num, z], w < t.exports.funcNum := fun w hw =>
        (mem_sharing.mp (hrest ▸ hw)).1
      have hynone := (exportName_none (hnames _ (hlt d.num (by simp)))).mp hy
      have hznone := (exportName_none (hnames z (hlt z (by simp)))).mp hz
      obtain ⟨full, hfull, hcut⟩ := Option.map_eq_some_iff.mp hkeep
      have hguard : d.num < t.exports.nameNum := by
        by_contra hno
        rw [(dumpExportAt_named hat).mpr hno] at hfull
        cases hfull
      obtain ⟨_, _, hread⟩ := dumpExportAt_ok hat
      rw [if_pos hguard, hnameAddr _ (hlt d.num (by simp)), hynone] at hread
      obtain ⟨text, htext, hname⟩ := hread
      obtain rfl : full = text := Option.some.inj (hfull.symm.trans hname)
      exact .inr ⟨d.num, z, hrest, ⟨hynone, hznone⟩, hguard, dllname, full, hdll (by omega), htext,
        hcut⟩

lemma PlainExports.labels (win : Bool) (ht : readTables t.file = .ok t) (h : PlainExports t) :
    KeepsLabels t win := by
  have hnameAddr := (exports_names (readTables_ok ht).2).2
  obtain ⟨out, hout⟩ := h.readable.dumpAsm win ht
  have hw := dumpAsm_written ht hout
  let names : ℕ → Option CString := fun x =>
    (lastName (exportNames t.file) x).bind (peReadName t.file)
  have hnames : ∀ x < t.exports.funcNum, ExportName t.file x (names x) := by
    intro x hx
    unfold ExportName
    cases hlast : lastName (exportNames t.file) x with
    | none => simp [names, hlast]
    | some rva =>
      obtain ⟨text, htext, _⟩ := h.names x hx rva hlast
      exact ⟨text, htext, by simp [names, hlast, htext]⟩
  -- what is printed where the loop comes to function `x`
  have hprinted : ∀ x < t.exports.funcNum, ∃ (i : ℕ) (s : SectionDump), out.sections[i]? = some s ∧
      Holds s.sec (exportAddr t x) ∧
      ∃ d rest, dumpExportAt t d.num = .ok d ∧ sharing t (exportAddr t x) = d.num :: rest ∧
        s.pickAt Directive.label? (exportAddr t x) = printedLabels d := by
    intro x hx
    obtain ⟨k, sec, hsec, hold, hreach⟩ := h.reached x hx
    obtain ⟨s, hs, rfl⟩ := hw.dump_of hsec
    exact ⟨k, s, hs, hold, hw.found ht hx hs hold hreach⟩
  have hdll : t.exports.funcNum ≠ 0 →
      peReadName t.file t.exports.dllname = some ((peReadName t.file t.exports.dllname).getD []) := by
    intro hnum
    obtain ⟨_, _, _, _, d, _, hat, _⟩ := hprinted 0 (Nat.pos_of_ne_zero hnum)
    rw [(dumpExportAt_ok hat).2.1, Option.getD_some]
  refine ⟨out, _, names, hout, hdll, hnames, fun x hx => ?_⟩
  obtain ⟨i, s, hi, hold, d, rest, hat, hrest, hpick⟩ := hprinted x hx
  refine ⟨i, s, hi, hold, ?_⟩
  obtain ⟨_, hread, hname⟩ := dumpExportAt_ok hat
  rw [hpick, hrest, hread, Option.getD_some]
  apply labels_perm.mpr
  rcases h.own x hx with ⟨hself, hnamed⟩ | ⟨y, z, hpair, hmis⟩
  · obtain ⟨rfl, rfl⟩ := List.cons.inj (hrest.symm.trans hself)
    refine .inl ⟨rfl, ?_⟩
    split_ifs at hname with hguard
    · obtain ⟨rva, hrva⟩ := Option.ne_none_iff_exists'.mp (hnamed.mpr hguard)
      obtain ⟨text, htext, hat⟩ := hname
      obtain ⟨text', htext', hplain⟩ := h.names _ hx rva hrva
      rw [hnameAddr _ hx, hrva, Option.getD_some, htext'] at htext
      obtain rfl := Option.some.inj htext
      simp [names, hrva, htext', hat, cutAt_eq_self.mpr hplain]
    · have hlast : lastName (exportNames t.file) d.num = none := by
        by_contra hne
        exact hguard (hnamed.mp hne)
      simp [names, hlast, hname]
  · obtain ⟨rfl, rfl⟩ := List.cons.inj (hrest.symm.trans hpair)
    obtain ⟨dllname, text, hdll', htext, hcut⟩ := hmis.misread
    obtain rfl : d.dllname = dllname := Option.some.inj (hread.symm.trans hdll')
    rw [if_pos hmis.guard, hnameAddr _ (mem_sharing.mp (hrest ▸ List.mem_cons_self)).1,
      hmis.unnamed.1] at hname
    obtain ⟨text', htext', hat⟩ := hname
    obtain rfl : text = text' := Option.some.inj (htext.symm.trans htext')
    exact .inr ⟨z, rfl, by simp [names, hmis.unnamed.1], by simp [names, hmis.unnamed.2],
      by simp [hat, hcut]⟩

/-- Labels are kept iff functions have addresses of their own, and plain names go to the first functions
of the table and no others. -/
theorem keepsLabels_iff (win : Bool) (file : PeFile) (t : Tables) (ht : readTables file = .ok t) :
    KeepsLabels t win ↔ PlainExports t := by
  obtain rfl := readTables_file ht
  exact ⟨fun h => h.plain ht, fun h => h.labels win ht⟩

def labelImage (o : ℕ) : List UInt8 :=
  List.replicate 0x3c 0 ++ word 0x40 ++
    peBytes 1 0x78 0x1050 0x400000 [(0x1000, 0x28), (0x103c, 20), (0, 0)] ++
    sectionBytes (ascii ".edata") 0x58 0x1000 0x58 0xf8 0x40000040 ++
    List.replicate 0x0c 0 ++ word 0x1038 ++ word 1 ++ word 2 ++ word 1 ++ word 0x1028 ++
    word 0x1030 ++ word 0x1034 ++ word 0x1050 ++ word 0x1054 ++ word 0x103a ++ word o ++
    ascii "d" ++ [0] ++ ascii "g" ++ [0] ++ List.replicate 0x1c 0

def labelFile (o : ℕ) : PeFile where
  f := labelImage o
  headerOff := 0x40
  datadirOff := 0xb8
  sectionsOff := 0xd0
  sectionsNum := 1
  entrypoint := 0x1050
  baseAddr := 0x400000
  datadirNum := 3

def labelTables (o : ℕ) : Tables where
  file := labelFile o
  exports := ⟨0x1038, 2, 1, [0x401050, 0x401054], [0, 0].set o 0x103a⟩
  imports := ⟨0, 0, [], [], []⟩
  rsrcStrings := ⟨0, [], [], []⟩

def labelSection : PeSection := ⟨ascii ".edata", 0x58, 0x401000, 0x58, 0xf8, true, false, false⟩

theorem labels_lost :
    peOpenReadHeader (labelImage 1) = some (labelFile 1) ∧
      readTables (labelFile 1) = .ok (labelTables 1) ∧ SectionAt (labelFile 1) 0 labelSection ∧
      (∀ x < 2, Holds labelSection (exportAddr (labelTables 1) x)) ∧
      ¬ KeepsLabels (labelTables 1) false := by
  refine ⟨by decide +kernel, by decide +kernel, ⟨by decide, by decide +kernel⟩, ?_, ?_⟩
  · intro x hx
    interval_cases x
    · exact ⟨by decide, by decide⟩
    · exact ⟨by decide, by decide⟩
  · rintro ⟨out, dllname, names, hout, -⟩
    have hfail : dumpAsm false (labelFile 1) = .error "Failed to read export name" := by
      decide +kernel
    rw [show (labelTables 1).file = labelFile 1 from rfl, hfail] at hout
    cases hout

def labelDump : AsmDump where
  start := [.globl (ascii "pe_start"), .assign (ascii "pe_start") 0x401050]
  sections := [⟨labelSection, sectionHeader false labelSection,
    [(0x50, .incbin 0xf8 0x50), (0x50, .globl (ascii "_d_0")), (0x50, .label (ascii "_d_0")),
      (0x50, .globl (ascii "g")), (0x50, .label (ascii "g")), (0x54, .incbin 0x148 4),
      (0x54, .globl (ascii "_d_1")), (0x54, .label (ascii "_d_1")), (0x58, .incbin 0x14c 4)]⟩]
  strings := rsrcTable (labelTables 0)

lemma label_names :
    lastName (exportNames (labelFile 0)) 0 = some 0x103a ∧
      lastName (exportNames (labelFile 0)) 1 = none := by
  constructor <;> decide +kernel

lemma label_plain : PlainExports (labelTables 0) where
  readable := by
    have ht : readTables (labelFile 0) = .ok (labelTables 0) := by decide +kernel
    have hout : dumpAsm false (labelFile 0) = .ok labelDump := by decide +kernel
    exact readable_of_dumpAsm ht hout
  names := by
    intro x hx rva hrva
    have hx' : x < 2 := hx
    interval_cases x
    · obtain rfl := Option.some.inj (hrva.symm.trans label_names.1)
      exact ⟨ascii "g", by decide +kernel, by decide⟩
    · cases hrva.symm.trans label_names.2
  reached := by
    intro x hx
    have hx' : x < 2 := hx
    have hslot : ∀ y a, ¬ SlotAt (labelTables 0) y a := fun y a h => by cases h
    have hblock : ∀ y b n, ¬ BlockAt (labelTables 0) y b n := fun y b n h => by cases h.1
    refine ⟨0, labelSection, ⟨by decide, by decide +kernel⟩, ?_, ?_⟩
    · interval_cases x <;> exact ⟨by decide, by decide⟩
    · refine reached_outside ?_ (Nat.zero_le _) (fun y a h => absurd h (hslot y a))
        (fun y b n h => absurd h (hblock y b n)) fun y z a n h _ => absurd h (hslot y a)
      interval_cases x <;> decide
  own := by
    intro x hx
    have hx' : x < 2 := hx
    interval_cases x
    · exact .inl ⟨by decide, by decide +kernel⟩
    · exact .inl ⟨by decide, by decide +kernel⟩

theorem labels_kept : KeepsLabels (labelTables 0) false :=
  (keepsLabels_iff false (labelFile 0) (labelTables 0) (by decide +kernel)).mpr label_plain

end Metroskrew.Relink
