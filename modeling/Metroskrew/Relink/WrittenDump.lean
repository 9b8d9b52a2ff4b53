import Metroskrew.Relink.SectionRun

/-! What a run of `dump_asm` leaves in the assembly file, read position by position, and when there is
such a run. The section loop jumps over what it finds, so it does not come to every position. -/

namespace Metroskrew.Relink

variable {t : Tables} {win : Bool} {sec : PeSection} {β : Type}

/-- What `g` reads off the lines printed while the loop stood at `p`. -/
def pick (g : Directive → Option β) (ds : List (ℕ × Directive)) (p : ℕ) : List β :=
  ds.filterMap fun line => if line.1 = p then g line.2 else none

def SectionDump.pickAt (g : Directive → Option β) (s : SectionDump) (a : ℕ) : List β :=
  if s.sec.address ≤ a then pick g s.body (a - s.sec.address) else []

def Holds (sec : PeSection) (a : ℕ) : Prop := sec.address ≤ a ∧ a < sec.address + sec.vsize

def SectionAt (file : PeFile) (x : ℕ) (sec : PeSection) : Prop :=
  x < file.sectionsNum ∧ peReadSectionHeader file x = some sec

lemma pick_append (g : Directive → Option β) (xs ys : List (ℕ × Directive)) (p : ℕ) :
    pick g (xs ++ ys) p = pick g xs p ++ pick g ys p := by simp [pick]

lemma pick_tagged (g : Directive → Option β) (lines : List Directive) (p : ℕ) :
    pick g (lines.map fun line => (p, line)) p = lines.filterMap g := by
  simp [pick, List.filterMap_map]

lemma pick_none {g : Directive → Option β} {ds : List (ℕ × Directive)} {p : ℕ}
    (h : ∀ line ∈ ds, line.1 ≠ p) : pick g ds p = [] := by
  rw [pick, List.filterMap_eq_nil_iff]
  intro line hl
  rw [if_neg (h line hl)]

lemma run_tags {pos lastPos : ℕ} {ds : List (ℕ × Directive)} (h : Run t win sec pos lastPos ds) :
    ∀ line ∈ ds, pos ≤ line.1 ∧ line.1 ≤ sec.vsize := by
  induction h with
  | done hgt => simp
  | skip hlt hf hd _ ih =>
    intro line hl
    have := ih line hl
    omega
  | @visit pos lastPos found ds hle hf _ ih =>
    intro line hl
    rcases List.mem_append.mp hl with hl | hl
    · obtain ⟨d, _, rfl⟩ := List.mem_map.mp hl
      exact ⟨le_rfl, hle⟩
    · have := ih line hl
      have := afterVisit_lt pos (dumpFound win sec pos found).2
      omega

lemma flush_pick {g : Directive → Option β} (hincbin : ∀ off len, g (.incbin off len) = none)
    (hzero : ∀ len, g (.zero len) = none) (lastPos pos : ℕ) :
    (flushTo sec lastPos pos).filterMap g = [] := by
  unfold flushTo
  split_ifs <;> simp [hincbin, hzero]

lemma map_of_mapM {ε α γ : Type} {f : α → Except ε γ} {xs : List α} {ys : List γ}
    (h : xs.mapM f = .ok ys) : xs.map f = ys.map .ok := by
  induction xs generalizing ys with
  | nil =>
    cases h
    rfl
  | cons x xs ih =>
    rw [List.mapM_cons] at h
    cases hx : f x with
    | error e =>
      rw [hx] at h
      cases h
    | ok y =>
      cases hxs : xs.mapM f with
      | error e =>
        rw [hx, hxs] at h
        cases h
      | ok zs =>
        rw [hx, hxs] at h
        cases h
        rw [List.map_cons, List.map_cons, hx, ih hxs]

lemma dumpSection_ok {x : ℕ} {s : SectionDump} (h : dumpSection t win x = .ok s) :
    peReadSectionHeader t.file x = some s.sec ∧ Run t win s.sec 0 0 s.body := by
  rw [dumpSection] at h
  cases hs : peReadSectionHeader t.file x with
  | none =>
    rw [hs] at h
    cases h
  | some sec =>
    rw [hs] at h
    cases hb : sectionLoop t win sec 0 0 with
    | error message =>
      simp [orFail, hb, bind, Except.bind] at h
    | ok body =>
      simp only [orFail, hb, bind, Except.bind, pure, Except.pure, Except.ok.injEq] at h
      subst h
      exact ⟨rfl, sectionLoop_run t win sec 0 0 body hb⟩

lemma readTables_ok {file : PeFile} (h : readTables file = .ok t) :
    t.file = file ∧ peReadExportTable file = some t.exports := by
  rw [readTables] at h
  cases he : peReadExportTable file <;> cases hi : peReadImportTable file <;>
    cases hr : peReadRsrcStrings file <;>
    simp [orFail, he, hi, hr, bind, Except.bind, pure, Except.pure] at h
  rw [← h]
  exact ⟨rfl, rfl⟩

lemma readTables_file {file : PeFile} (h : readTables file = .ok t) : t.file = file :=
  (readTables_ok h).1

structure Written (t : Tables) (win : Bool) (file : PeFile) (out : AsmDump) : Prop where
  section_of : ∀ {x s}, out.sections[x]? = some s →
    SectionAt file x s.sec ∧ Run t win s.sec 0 0 s.body
  dump_of : ∀ {x sec}, SectionAt file x sec → ∃ s, out.sections[x]? = some s ∧ s.sec = sec
  length : out.sections.length = file.sectionsNum

lemma dumpAsm_written {file : PeFile} {out : AsmDump} (ht : readTables file = .ok t)
    (h : dumpAsm win file = .ok out) : Written t win file out := by
  rw [dumpAsm, ht] at h
  cases hm : (List.range file.sectionsNum).mapM (dumpSection t win) with
  | error message =>
    simp [hm, bind, Except.bind] at h
  | ok sections =>
    simp only [hm, bind, Except.bind, pure, Except.pure, Except.ok.injEq] at h
    subst h
    have hmap := map_of_mapM hm
    have hread : ∀ {x s}, sections[x]? = some s →
        x < file.sectionsNum ∧ dumpSection t win x = .ok s := by
      intro x s hx
      have := congrArg (·[x]?) hmap
      simpa [hx, List.getElem?_eq_some_iff] using this
    have hlen := congrArg List.length hmap
    simp only [List.length_map, List.length_range] at hlen
    refine ⟨fun {x s} hx => ?_, fun {x sec} hsec => ?_, hlen.symm⟩
    · obtain ⟨hlt, hs⟩ := hread hx
      obtain ⟨hsec, hrun⟩ := dumpSection_ok hs
      exact ⟨⟨hlt, readTables_file ht ▸ hsec⟩, hrun⟩
    · have hx : x < sections.length := hlen ▸ hsec.1
      refine ⟨sections[x], List.getElem?_eq_getElem hx, ?_⟩
      obtain ⟨_, hs⟩ := hread (List.getElem?_eq_getElem hx)
      have := (dumpSection_ok hs).1
      rw [readTables_file ht, hsec.2] at this
      exact (Option.some.inj this).symm

variable {file : PeFile} {out : AsmDump} {g : Directive → Option β}

lemma Written.pickAt_far (hw : Written t win file out) {x a : ℕ} {s : SectionDump}
    (hx : out.sections[x]? = some s) (hv : ¬ Visits s.sec a) : s.pickAt g a = [] := by
  obtain ⟨_, hrun⟩ := hw.section_of hx
  rw [SectionDump.pickAt]
  split_ifs with hlo
  · refine pick_none fun line hl he => hv ⟨hlo, ?_⟩
    have := (run_tags hrun line hl).2
    omega
  · rfl

lemma Found.dump_false_lines {pos : ℕ} {found : Found} (h : found.dump = false) :
    (dumpFound win sec pos found).1 = [] := by
  obtain ⟨he, hi, hr⟩ := Found.dump_false h
  simp [dumpFound, he, hi, hr]

lemma run_reached (hincbin : ∀ off len, g (.incbin off len) = none)
    (hzero : ∀ len, g (.zero len) = none) {pos lastPos p : ℕ} {ds : List (ℕ × Directive)}
    (h : Run t win sec pos lastPos ds) (hp : Reached t sec pos p) (hle : p ≤ sec.vsize) :
    ∃ found, findAt t (sec.address + p) = .ok found ∧
      pick g ds p = (dumpFound win sec p found).1.filterMap g := by
  induction h with
  | done hgt =>
    have := hp.le
    omega
  | @skip pos lastPos found ds hlt hf hd hrun ih =>
    cases hp with
    | here =>
      refine ⟨found, hf, ?_⟩
      rw [Found.dump_false_lines hd, pick_none fun line hl => by have := run_tags hrun line hl; omega]
      rfl
    | next hpos hnext =>
      rw [← findAt_room win hf, Found.dump_false_size hd] at hnext
      exact ih hnext
  | @visit pos lastPos found ds hpos hf hrun ih =>
    rw [pick_append]
    have hgt := afterVisit_lt pos (dumpFound win sec pos found).2
    cases hp with
    | here =>
      refine ⟨found, hf, ?_⟩
      rw [pick_tagged, pick_none fun line hl => by have := run_tags hrun line hl; omega, visitLines,
        List.filterMap_append, flush_pick hincbin hzero, List.nil_append, List.append_nil]
    | next hpos' hnext =>
      rw [← findAt_room win hf] at hnext
      obtain ⟨found', hf', hlines⟩ := ih hnext
      refine ⟨found', hf', ?_⟩
      rw [pick_none, List.nil_append, hlines]
      rintro line hl
      obtain ⟨d, _, rfl⟩ := List.mem_map.mp hl
      have := hnext.le
      omega

lemma run_tag_reached {pos lastPos : ℕ} {ds : List (ℕ × Directive)}
    (h : Run t win sec pos lastPos ds) : ∀ line ∈ ds, Reached t sec pos line.1 := by
  induction h with
  | done hgt => simp
  | @skip pos lastPos found ds hlt hf hd _ ih =>
    intro line hl
    refine .next hlt.le ?_
    rw [← findAt_room win hf, Found.dump_false_size hd]
    exact ih line hl
  | @visit pos lastPos found ds hle hf _ ih =>
    intro line hl
    rcases List.mem_append.mp hl with hl | hl
    · obtain ⟨d, _, rfl⟩ := List.mem_map.mp hl
      exact .here
    · refine .next hle ?_
      rw [← findAt_room win hf]
      exact ih line hl

/-- The text at an address can be read. -/
def Legible (file : PeFile) (rva : ℕ) : Prop := ∃ text, peReadName file rva = some text

/-- The section loop comes to the address of entry `x`, and finds that entry first. -/
def LookedUp (t : Tables) (addrs : List ℕ) (x : ℕ) : Prop :=
  ∃ k sec pos, SectionAt t.file k sec ∧ pos ≤ sec.vsize ∧ Reached t sec 0 pos ∧
    addrs[x]? = some (sec.address + pos) ∧ ∀ y < x, addrs[y]? ≠ some (sec.address + pos)

/-- Every section header can be read, and every name of what is looked up. -/
structure Readable (t : Tables) : Prop where
  sections : ∀ k < t.file.sectionsNum, ∃ sec, peReadSectionHeader t.file k = some sec
  exports : ∀ x, LookedUp t t.exports.funcAddr x → Legible t.file t.exports.dllname ∧
    (x < t.exports.nameNum → Legible t.file (t.exports.nameAddr.getD x 0))
  imports : ∀ x, LookedUp t t.imports.impAddr x → Legible t.file (t.imports.dllnameAddr.getD x 0) ∧
    (x < t.imports.nameNum → t.imports.nameAddr.getD x 0 < 0x80000000 →
      Legible t.file (t.imports.nameAddr.getD x 0))

lemma exportAt_iff {x : ℕ} : (∃ d, dumpExportAt t x = .ok d) ↔ Legible t.file t.exports.dllname ∧
    (x < t.exports.nameNum → Legible t.file (t.exports.nameAddr.getD x 0)) := by
  unfold dumpExportAt Legible
  generalize t.exports.nameAddr.getD x 0 = rva
  cases hdll : peReadName t.file t.exports.dllname with
  | none => simp [orFail, bind, Except.bind]
  | some dll =>
    by_cases hx : x < t.exports.nameNum
    · cases hname : peReadName t.file rva <;>
        simp [orFail, bind, Except.bind, hx, pure, Except.pure]
    · simp [orFail, bind, Except.bind, hx, pure, Except.pure]

lemma importAt_iff {x : ℕ} :
    (∃ d, dumpImportAt t x = .ok d) ↔ Legible t.file (t.imports.dllnameAddr.getD x 0) ∧
    (x < t.imports.nameNum → t.imports.nameAddr.getD x 0 < 0x80000000 →
      Legible t.file (t.imports.nameAddr.getD x 0)) := by
  unfold dumpImportAt Legible
  generalize t.imports.nameAddr.getD x 0 = off
  cases hdll : peReadName t.file (t.imports.dllnameAddr.getD x 0) with
  | none => simp [orFail, bind, Except.bind]
  | some dll =>
    by_cases hx : x < t.imports.nameNum
    · by_cases hord : 0x80000000 ≤ off
      · simp [orFail, bind, Except.bind, hx, hord, pure, Except.pure, Nat.not_lt.mpr hord]
      · cases hname : peReadName t.file off <;>
          simp [orFail, bind, Except.bind, hx, hord, hname, pure, Except.pure]
    · simp [orFail, bind, Except.bind, hx, pure, Except.pure]

lemma findFirst_iff {α : Type} {addrs : List ℕ} {addr : ℕ} {read : ℕ → Dump α} :
    (∃ r, findFirst addrs addr read = .ok r) ↔
      ∀ x, addrs[x]? = some addr → (∀ y < x, addrs[y]? ≠ some addr) → ∃ d, read x = .ok d := by
  constructor
  · rintro ⟨r, hr⟩ x hx hfirst
    cases r with
    | none => exact absurd hx (findFirst_none hr x)
    | some d =>
      obtain ⟨y, hy, hfirst', hread⟩ := findFirst_some hr
      have hle : ¬ x < y := fun hlt => hfirst' x hlt hx
      have hge : ¬ y < x := fun hlt => hfirst y hlt hy
      obtain rfl : y = x := by omega
      exact ⟨d, hread⟩
  · intro h
    rw [findFirst]
    cases hf : addrs.findIdx? (· = addr) with
    | none => exact ⟨none, rfl⟩
    | some x =>
      obtain ⟨hx, hfirst⟩ := findIdx?_some hf
      obtain ⟨d, hd⟩ := h x hx hfirst
      exact ⟨some d, by simp only [hd]; rfl⟩

lemma findAt_iff {addr : ℕ} : (∃ found, findAt t addr = .ok found) ↔
    (∃ exp, dumpFindExport t addr = .ok exp) ∧ ∃ imp, dumpFindImport t addr = .ok imp := by
  constructor
  · rintro ⟨found, hf⟩
    obtain ⟨hexp, himp, _⟩ := findAt_ok hf
    exact ⟨⟨_, hexp⟩, _, himp⟩
  · rintro ⟨⟨exp, hexp⟩, imp, himp⟩
    rw [findAt, hexp, himp]
    exact ⟨_, rfl⟩

lemma mapM_ok {ε α γ : Type} (f : α → Except ε γ) (xs : List α)
    (h : ∀ x ∈ xs, ∃ y, f x = .ok y) : ∃ ys, xs.mapM f = .ok ys := by
  induction xs with
  | nil => exact ⟨[], rfl⟩
  | cons x xs ih =>
    obtain ⟨y, hy⟩ := h x List.mem_cons_self
    obtain ⟨ys, hys⟩ := ih fun x' hx' => h x' (List.mem_cons_of_mem x hx')
    exact ⟨y :: ys, by rw [List.mapM_cons, hy, hys]; rfl⟩

lemma readable_of_dumpAsm {file : PeFile} {out : AsmDump} (ht : readTables file = .ok t)
    (h : dumpAsm win file = .ok out) : Readable t := by
  obtain rfl := readTables_file ht
  have hw := dumpAsm_written ht h
  have hfound : ∀ k sec pos, SectionAt t.file k sec → pos ≤ sec.vsize → Reached t sec 0 pos →
      ∃ found, findAt t (sec.address + pos) = .ok found := by
    intro k sec pos hsec hpos hreach
    obtain ⟨s, hs, rfl⟩ := hw.dump_of hsec
    obtain ⟨found, hf, _⟩ := run_reached (g := fun _ => (none : Option ℕ)) (fun _ _ => rfl) (fun _ => rfl)
      (hw.section_of hs).2 hreach hpos
    exact ⟨found, hf⟩
  refine ⟨fun k hk => ?_, ?_, ?_⟩
  · have hs := List.getElem?_eq_getElem (hw.length.symm ▸ hk : k < out.sections.length)
    exact ⟨_, (hw.section_of hs).1.2⟩
  · rintro x ⟨k, sec, pos, hsec, hpos, hreach, hx, hfirst⟩
    have hexp := (findAt_iff.mp (hfound k sec pos hsec hpos hreach)).1
    exact exportAt_iff.mp (findFirst_iff.mp hexp x hx hfirst)
  · rintro x ⟨k, sec, pos, hsec, hpos, hreach, hx, hfirst⟩
    have himp := (findAt_iff.mp (hfound k sec pos hsec hpos hreach)).2
    exact importAt_iff.mp (findFirst_iff.mp himp x hx hfirst)

lemma Readable.dumpAsm (h : Readable t) (win : Bool) (ht : readTables t.file = .ok t) :
    ∃ out, dumpAsm win t.file = .ok out := by
  have hsection : ∀ k ∈ List.range t.file.sectionsNum, ∃ s, dumpSection t win k = .ok s := by
    intro k hk
    rw [List.mem_range] at hk
    obtain ⟨sec, hsec⟩ := h.sections k hk
    obtain ⟨body, hbody⟩ := sectionLoop_reached win 0 0 fun pos hpos hreach => by
      apply findAt_iff.mpr
      constructor
      · apply findFirst_iff.mpr
        intro x hx hfirst
        exact exportAt_iff.mpr (h.exports x ⟨k, sec, pos, ⟨hk, hsec⟩, hpos, hreach, hx, hfirst⟩)
      · apply findFirst_iff.mpr
        intro x hx hfirst
        exact importAt_iff.mpr (h.imports x ⟨k, sec, pos, ⟨hk, hsec⟩, hpos, hreach, hx, hfirst⟩)
    rw [dumpSection, hsec]
    simp only [orFail, bind, Except.bind, hbody]
    exact ⟨_, rfl⟩
  obtain ⟨sections, hm⟩ := mapM_ok (dumpSection t win) _ hsection
  rw [Relink.dumpAsm, ht]
  simp only [bind, Except.bind, hm]
  exact ⟨_, rfl⟩

/-- `dump_asm` writes its file exactly when nothing it looks up fails to be read. -/
theorem readable_iff (win : Bool) (ht : readTables t.file = .ok t) :
    (∃ out, dumpAsm win t.file = .ok out) ↔ Readable t :=
  ⟨fun ⟨_, h⟩ => readable_of_dumpAsm ht h, fun h => h.dumpAsm win ht⟩

end Metroskrew.Relink
