import Metroskrew.Patch.ScanFirst

/-! Which reads of the finders and of `scan_bin` stay in the file, and which ranges they print. -/

namespace Metroskrew.Patch

variable {binary : List UInt8}

/-- A definition `code_X.end` is printed for a range of the file only. -/
def Loc.InFile (binary : List UInt8) (loc : Loc) : Prop :=
  ∀ text name start name' stop, Line.code name start ∈ printLoc text loc →
    Line.codeEnd name' stop ∈ printLoc text loc → start ≤ stop ∧ stop ≤ binary.length

lemma Loc.inFile_iff {loc : Loc} : loc.InFile binary ↔
    loc.stop = 0 ∨ loc.stop = loc.start ∨ loc.start ≤ loc.stop ∧ loc.stop ≤ binary.length := by
  constructor
  · intro h
    by_cases hzero : loc.stop = 0
    · exact .inl hzero
    · by_cases hsame : loc.stop = loc.start
      · exact .inr (.inl hsame)
      · refine .inr (.inr (h none loc.name loc.start loc.name loc.stop ?_ ?_))
        · simp [printLoc, hzero]
        · simp [printLoc, hzero, hsame]
  · intro h text name start name' stop hstart hstop
    rw [printLoc] at hstart hstop
    split_ifs at hstart hstop <;> simp at hstart hstop
    all_goals omega

lemma inFile_zero {name : String} {start : ℕ} {raw : Bool} :
    (Loc.mk name start 0 raw).InFile binary := Loc.inFile_iff.mpr (.inl rfl)

lemma inFile_same {name : String} {start : ℕ} {raw : Bool} :
    (Loc.mk name start start raw).InFile binary := Loc.inFile_iff.mpr (.inr (.inl rfl))

lemma inFile_range {name : String} {start stop : ℕ} {raw : Bool} (h : start ≤ stop)
    (hstop : stop ≤ binary.length) : (Loc.mk name start stop raw).InFile binary :=
  Loc.inFile_iff.mpr (.inr (.inr ⟨h, hstop⟩))

lemma inFile_found {name : String} {start : ℕ} {raw : Bool} {found : Option ℕ} {f : ℕ → ℕ}
    (h : ∀ e, found = some e → start ≤ f e ∧ f e ≤ binary.length) :
    (Loc.mk name start ((found.map f).getD 0) raw).InFile binary := by
  cases found with
  | none => exact inFile_zero
  | some e => exact inFile_range (h e rfl).1 (h e rfl).2

lemma readAt_iff {off w : ℕ} :
    readAt binary off = some w ↔ off + 4 ≤ binary.length ∧ readU32 binary off = w := by
  rw [readAt]
  split_ifs with h <;> simp [h]

lemma memmemFrom_inside {needle : List UInt8} {start : ℕ} {found : Option ℕ}
    (hstart : start < 2 ^ 64) (h : memmemFrom binary needle start = some found) :
    start ≤ binary.length := by
  by_contra hout
  rw [memmemFrom_out (Nat.lt_of_not_le hout) hstart] at h
  cases h

lemma memmemFrom_end {needle : List UInt8} {start e : ℕ} (hlen : binary.length < 2 ^ 63)
    (hne : needle ≠ []) (hin : start ≤ binary.length)
    (h : memmemFrom binary needle start = some (some e)) :
    start ≤ e ∧ e + needle.length ≤ binary.length := by
  obtain ⟨⟨hle, hat⟩, -⟩ := (memmemFrom_some hlen hin).mp h
  exact ⟨hle, prefix_bound hne hat⟩

lemma skipNops_bounds {off : ℕ} (h : off ≤ binary.length) :
    off ≤ skipNops binary off ∧ skipNops binary off ≤ binary.length := by
  fun_induction skipNops binary off with
  | case1 off hlt hnop ih =>
    obtain ⟨hle, hin⟩ := ih hlt
    exact ⟨by omega, hin⟩
  | case2 off hlt hnop => exact ⟨le_rfl, h⟩
  | case3 off hlt => exact ⟨le_rfl, h⟩

lemma Matches.next_le {regions : List Region} {base : ℕ} (h : Matches binary regions base)
    (cur : Region) (hcur : cur ∈ regions) (hoff : 0 ≤ cur.off) : cur.next base ≤ binary.length := by
  obtain ⟨p, hp, hat⟩ := h cur hcur
  have hbound := prefix_bound cur.data_ne hat
  rw [Region.next]
  omega

lemma Matches.readAt {regions : List Region} {base : ℕ} (h : Matches binary regions base)
    (cur : Region) {last : Region} (hlast : last ∈ regions) (hcur : 0 ≤ cur.off)
    (hle : cur.off + cur.data.length + 4 ≤ last.off + last.data.length) :
    Patch.readAt binary (cur.next base) = some (readU32 binary (cur.next base)) := by
  have hsize := List.length_pos_of_ne_nil cur.data_ne
  refine readAt_iff.mpr ⟨?_, rfl⟩
  obtain ⟨p, hp, hat⟩ := h last hlast
  have hbound := prefix_bound last.data_ne hat
  rw [Region.next]
  omega

/-- Where a `call` at an offset from the pattern goes, as `find_init` works it out. -/
def callTarget (binary : List UInt8) (pos : ℕ) (call : Region) : ℕ :=
  readU32 binary (call.next pos) + pos + call.off.toNat + 5

lemma initSum {pos : ℕ} {call : Region} (hlen : binary.length < 2 ^ 63) (hoff : 0 ≤ call.off)
    (hin : call.next pos + 4 ≤ binary.length) :
    sizeT (readU32 binary (call.next pos) + pos + call.off + 5) = callTarget binary pos call := by
  have hlt := readU32_lt binary (call.next pos)
  rw [Region.next] at hin
  rw [show ((readU32 binary (call.next pos) : ℤ) + pos + call.off + 5) =
    (callTarget binary pos call : ℕ) by rw [callTarget]; push_cast; omega]
  apply sizeT_cast
  rw [callTarget]
  omega

lemma initStart_iff {pos start : ℕ} {call : Region} (hlen : binary.length < 2 ^ 63)
    (hoff : 0 ≤ call.off) : initStart binary pos call = some start ↔
      call.next pos + 4 ≤ binary.length ∧ callTarget binary pos call = start := by
  simp only [initStart, bind, Option.bind_eq_some_iff, readAt_iff, Option.some.injEq]
  constructor
  · rintro ⟨operand, ⟨hin, rfl⟩, rfl⟩
    exact ⟨hin, (initSum hlen hoff hin).symm⟩
  · rintro ⟨hin, rfl⟩
    exact ⟨_, ⟨hin, rfl⟩, initSum hlen hoff hin⟩

/-- The pattern of `find_init` at `pos` has its last operand in the file, the two functions it looks
for the ends of begin there, and so does what follows the end code of the first. -/
structure InitInside (binary : List UInt8) (pos : ℕ) : Prop where
  main : callMain.next pos + 4 ≤ binary.length
  args : callTarget binary pos callInitArgs ≤ binary.length
  envp : callTarget binary pos callInitEnvp ≤ binary.length
  args_end : ∀ e, IsLeast {q | callTarget binary pos callInitArgs ≤ q ∧
    endInitArgs <+: binary.drop q} e → e + endInitArgs.length + 11 ≤ binary.length

/-- A first match of the pattern of `find_init` is inside, and the word at 0xb4 is there if any place
matches the text section. -/
structure Scannable (binary : List UInt8) : Prop where
  init : ∀ pos, IsLeast {q | Matches binary (initSentinel :: initRest) q} pos → InitInside binary pos
  text : ∀ pos, Matches binary [textName, textFlags] pos → 0xb4 + 4 ≤ binary.length

section Finders

variable (hlen : binary.length < 2 ^ 63)
include hlen

lemma scanReads_one (cur : Region) (hcur : cur.off = 0) {off : ℕ} (hoff : off ≤ binary.length) :
    ∃ found, scanReads binary cur [] off = some found ∧
      ∀ pos, found = some pos → pos + cur.data.length ≤ binary.length := by
  refine ⟨_, scanReads_eq hlen (by simp) hoff, fun pos hpos => ?_⟩
  obtain ⟨⟨-, hmatch⟩, -⟩ := (scan_iff hlen (by simp) hcur).mp hpos
  have hnext := hmatch.next_le cur List.mem_cons_self hcur.ge
  rwa [Region.next, hcur] at hnext

lemma findFsLeft_inFile (needle : List UInt8) (names : List String) (off : ℕ)
    (hoff : off ≤ binary.length) : ∃ res, findFsLeft binary needle names off = some res ∧
      ∀ loc ∈ res.1, loc.InFile binary := by
  induction names generalizing off with
  | nil =>
    rw [findFsLeft, memmemFrom_in needle hlen hoff]
    exact ⟨_, rfl, by simp⟩
  | cons name names ih =>
    obtain ⟨found, hscan, hbound⟩ := scanReads_one hlen fsCode rfl hoff
    rw [findFsLeft, hscan]
    cases found with
    | none => exact ⟨([], none), rfl, by simp⟩
    | some pos =>
      have hpos := hbound pos rfl
      have hsize : fsCode.data.length = 14 := rfl
      obtain ⟨res, hres, hall⟩ := ih (pos + 1) (by omega)
      refine ⟨_, by simp only [bind, Option.bind_some, hres]; rfl, ?_⟩
      rw [List.forall_mem_cons]
      exact ⟨inFile_range (Nat.le_add_right ..) hpos, hall⟩

lemma findFs_inFile : ∃ locs, findFs binary = some locs ∧ ∀ loc ∈ locs, loc.InFile binary := by
  obtain ⟨res, hres, hall⟩ := findFsLeft_inFile hlen [] ["fs_1", "fs_2", "fs_3"] 0 (Nat.zero_le _)
  exact ⟨res.1, by rw [findFs, hres]; rfl, hall⟩

lemma findEnding_inFile {name : String} {code : Region} {endCode : List UInt8} {after : ℕ → ℕ}
    (hcode : code.off = 0) (hne : endCode ≠ [])
    (hafter : ∀ e, e + endCode.length ≤ binary.length → e ≤ after e ∧ after e ≤ binary.length) :
    ∃ locs, findEnding binary name code endCode after = some locs ∧
      ∀ loc ∈ locs, loc.InFile binary := by
  obtain ⟨found, hscan, hbound⟩ := scanReads_one hlen code hcode (Nat.zero_le _)
  rw [findEnding, hscan]
  cases found with
  | none => exact ⟨[], rfl, by simp⟩
  | some off =>
    have hoff : off ≤ binary.length := (Nat.le_add_right ..).trans (hbound off rfl)
    have hfrom := memmemFrom_in endCode hlen hoff
    refine ⟨_, by simp only [bind, Option.bind_some, hfrom]; rfl, ?_⟩
    rw [List.forall_mem_singleton]
    apply inFile_found
    intro e he
    rw [he] at hfrom
    obtain ⟨hle, hend⟩ := memmemFrom_end hlen hne hoff hfrom
    obtain ⟨hskip, hin⟩ := hafter e hend
    exact ⟨hle.trans hskip, hin⟩

lemma findGetenv_inFile :
    ∃ locs, findGetenv binary = some locs ∧ ∀ loc ∈ locs, loc.InFile binary := by
  apply findEnding_inFile hlen rfl (by decide)
  intro e he
  obtain ⟨hskip, hin⟩ := skipNops_bounds he
  exact ⟨(Nat.le_add_right ..).trans hskip, hin⟩

lemma findFindexe_inFile :
    ∃ locs, findFindexe binary = some locs ∧ ∀ loc ∈ locs, loc.InFile binary :=
  findEnding_inFile hlen rfl (by decide) fun _ he => skipNops_bounds ((Nat.le_add_right ..).trans he)

lemma findMemreuse01_inFile :
    ∃ locs, findMemreuse01 binary = some locs ∧ ∀ loc ∈ locs, loc.InFile binary := by
  have hrest : ∀ r ∈ memreuseRest, r.Sized := sized_all (by decide)
  rw [findMemreuse01, scanReads_eq hlen hrest (Nat.zero_le _)]
  cases hscan : scan binary memreuseCode memreuseRest 0 with
  | none => exact ⟨[], rfl, by simp⟩
  | some off =>
    obtain ⟨hmatch, -⟩ := (scan_first hlen hrest rfl off).mp hscan
    have hlast : memreuseEnd ∈ memreuseCode :: memreuseRest := by simp [memreuseRest]
    have hcode := hmatch.readAt memreuseCode hlast (by decide) (by decide)
    have hstore := hmatch.readAt memreuseStore hlast (by decide) (by decide)
    have hebp := hmatch.readAt memreuseEbp hlast (by decide) (by decide)
    have hedx := hmatch.readAt memreuseEdx hlast (by decide) (by decide)
    have hmalloc := hmatch.readAt memreuseMalloc hlast (by decide) (by decide)
    have hcall := hmatch.readAt memreuseCall hlast (by decide) (by decide)
    simp only [bind, Option.bind_some, hcode, hstore, hebp, hedx, memreuseStart, hmalloc, hcall]
    refine ⟨_, rfl, ?_⟩
    simp only [List.forall_mem_cons, List.not_mem_nil, false_implies, implies_true, and_true]
    have hend := hmatch.next_le memreuseEnd hlast (by decide)
    have hsize : memreuseEnd.next off = off + 432 := rfl
    refine ⟨inFile_range ?_ hend, inFile_zero, inFile_zero, inFile_zero, inFile_zero, inFile_same,
      inFile_same⟩
    rw [hsize]
    exact Nat.add_le_add_left (Nat.zero_le 432) off

lemma depfileVersion_some (build : ℕ) (hbuild : build ≤ binary.length) :
    ∃ version, depfileVersion binary build = some version := by
  rw [depfileVersion]
  split_ifs with hstart hrest
  · exact ⟨none, rfl⟩
  · exact ⟨none, rfl⟩
  · have hsize : sizeT (binary.length - build) = binary.length - build := by
      rw [← Nat.cast_sub hbuild, sizeT_cast (by omega)]
    rw [bytesAt, if_pos (by omega)]
    simp only [bind, Option.bind_some]
    cases hpush : memmem pushCode ((binary.drop build).take 0x80) with
    | none => exact ⟨none, rfl⟩
    | some push =>
      have hbound := prefix_bound (by decide) (memmem_some hpush)
      rw [List.length_take] at hbound
      have hread : readAt binary (build + push - 4) = some (readU32 binary (build + push - 4)) :=
        readAt_iff.mpr ⟨by omega, rfl⟩
      simp only [hread, Option.bind_some]
      exact ⟨_, rfl⟩

lemma findDepfile_inFile :
    ∃ locs, findDepfile binary = some locs ∧ ∀ loc ∈ locs, loc.InFile binary := by
  obtain ⟨found, hscan, hbuild⟩ := scanReads_one hlen depfileCode rfl (Nat.zero_le _)
  obtain ⟨found', hscan', htarget⟩ := scanReads_one hlen codeGetTarget rfl (Nat.zero_le _)
  obtain ⟨found'', hscan'', hheader⟩ := scanReads_one hlen codeGetHeader rfl (Nat.zero_le _)
  rw [findDepfile, hscan]
  cases found with
  | none => exact ⟨[], rfl, by simp⟩
  | some build =>
    simp only [bind, Option.bind_some, hscan']
    cases found' with
    | none => exact ⟨[], rfl, by simp⟩
    | some target =>
      simp only [Option.bind_some, hscan'']
      cases found'' with
      | none => exact ⟨[], rfl, by simp⟩
      | some header =>
        obtain ⟨version, hversion⟩ := depfileVersion_some hlen build
          ((Nat.le_add_right ..).trans (hbuild build rfl))
        simp only [Option.bind_some, hversion]
        cases version with
        | none => exact ⟨[], rfl, by simp⟩
        | some version =>
          obtain ⟨source, targets, numHeaders, headers⟩ := version
          refine ⟨_, rfl, ?_⟩
          simp only [List.forall_mem_cons, List.not_mem_nil, false_implies, implies_true, and_true]
          exact ⟨inFile_range (Nat.le_add_right ..) (hbuild build rfl),
            inFile_range (Nat.le_add_right ..) (htarget target rfl),
            inFile_range (Nat.le_add_right ..) (hheader header rfl), inFile_zero, inFile_zero,
            inFile_zero, inFile_zero⟩

lemma findInit_iff : (∃ locs, findInit binary = some locs ∧ ∀ loc ∈ locs, loc.InFile binary) ↔
    ∀ pos, IsLeast {q | Matches binary (initSentinel :: initRest) q} pos → InitInside binary pos := by
  have hrest : ∀ r ∈ initRest, r.Sized := sized_all (by decide)
  have hfirst := scan_first hlen hrest (show initSentinel.off = 0 from rfl)
  rw [findInit, scanReads_eq hlen hrest (Nat.zero_le _)]
  simp only [← hfirst]
  cases hscan : scan binary initSentinel initRest 0 with
  | none =>
    refine ⟨fun _ pos hpos => ?_, fun _ => ⟨[], rfl, by simp⟩⟩
    cases hpos
  | some pos =>
    obtain ⟨hmatch, -⟩ := (hfirst pos).mp hscan
    have hlast : callMain ∈ initSentinel :: initRest := by simp [initRest]
    have hpos : pos ≤ binary.length :=
      (Nat.le_add_right ..).trans (hmatch.next_le initSentinel (by simp) (by decide))
    have henvp := hmatch.readAt initEnvp hlast (by decide) (by decide)
    have hargv := hmatch.readAt initArgv hlast (by decide) (by decide)
    have hargc := hmatch.readAt initArgc hlast (by decide) (by decide)
    have hargs := (initStart_iff hlen (by decide)).mpr
      ⟨(readAt_iff.mp (hmatch.readAt callInitArgs hlast (by decide) (by decide))).1, rfl⟩
    have henv := (initStart_iff hlen (by decide)).mpr
      ⟨(readAt_iff.mp (hmatch.readAt callInitEnvp hlast (by decide) (by decide))).1, rfl⟩
    have hcall : ∀ call : Region, call.off.toNat < 2 ^ 31 → callTarget binary pos call < 2 ^ 64 := by
      intro call hoff
      have := readU32_lt binary (call.next pos)
      rw [callTarget]
      omega
    simp only [bind, Option.bind_some, henvp, hargv, hargc, hargs, henv, Option.some.injEq, forall_eq']
    constructor
    · rintro ⟨locs, hlocs, hall⟩
      simp only [Option.bind_eq_some_iff, Option.some.injEq] at hlocs
      obtain ⟨argsEnd, hargsEnd, envEnd, henvEnd, main, hmain, rfl⟩ := hlocs
      have hargsIn := memmemFrom_inside (hcall callInitArgs (by decide)) hargsEnd
      have henvIn := memmemFrom_inside (hcall callInitEnvp (by decide)) henvEnd
      refine ⟨((initStart_iff hlen (by decide)).mp hmain).1, hargsIn, henvIn, fun e he => ?_⟩
      have hle := he.1.1
      obtain rfl : argsEnd = some e :=
        Option.some.inj (hargsEnd.symm.trans ((memmemFrom_some hlen hargsIn).mpr he))
      simp only [List.forall_mem_cons] at hall
      obtain ⟨-, -, -, hloc, -⟩ := hall
      rcases Loc.inFile_iff.mp hloc with hzero | hsame | ⟨-, hstop⟩
      · simp at hzero
      · simp at hsame
        omega
      · exact hstop
    · intro h
      have hargsEnd := memmemFrom_in endInitArgs hlen h.args
      have henvEnd := memmemFrom_in endInitEnvp hlen h.envp
      have hmain := (initStart_iff hlen (by decide)).mpr ⟨h.main, rfl⟩
      refine ⟨_, by simp only [hargsEnd, henvEnd, hmain, Option.bind_some]; rfl, ?_⟩
      simp only [List.forall_mem_cons, List.not_mem_nil, false_implies, implies_true, and_true]
      refine ⟨inFile_zero, inFile_zero, inFile_zero, inFile_found fun e he => ?_,
        inFile_found fun e he => ?_, inFile_same⟩
      · rw [he] at hargsEnd
        have hleast := (memmemFrom_some hlen h.args).mp hargsEnd
        have hle := hleast.1.1
        exact ⟨by omega, h.args_end e hleast⟩
      · rw [he] at henvEnd
        obtain ⟨hle, hend⟩ := memmemFrom_end hlen (by decide) h.envp henvEnd
        obtain ⟨hskip, hin⟩ := skipNops_bounds hend
        exact ⟨by omega, hin⟩

lemma scanBinText_iff : (∃ text, scanBinText binary = some text) ↔
    ∀ pos, Matches binary [textName, textFlags] pos → 0xb4 + 4 ≤ binary.length := by
  have hrest : ∀ r ∈ [textFlags], r.Sized := sized_all (by decide)
  have hfirst := scan_first hlen hrest (show textName.off = 0 from rfl)
  rw [scanBinText]
  cases hscan : scan binary textName [textFlags] 0 with
  | none =>
    refine ⟨fun _ pos hmatch => ?_, fun _ => ⟨none, rfl⟩⟩
    classical
    have hleast := (hfirst _).mpr (Nat.isLeast_find ⟨pos, hmatch⟩)
    rw [hscan] at hleast
    cases hleast
  | some pos =>
    obtain ⟨hmatch, -⟩ := (hfirst pos).mp hscan
    have hend := hmatch.next_le textFlags (by simp) (by decide)
    have hsize : textFlags.next pos = pos + 40 := rfl
    have hread : ∀ k, k + 4 ≤ 40 → readAt binary (pos + k) = some (readU32 binary (pos + k)) :=
      fun k hk => readAt_iff.mpr ⟨by omega, rfl⟩
    simp only [bind, hread 20 (by decide), hread 8 (by decide), hread 12 (by decide), Option.bind_some]
    constructor
    · rintro ⟨text, htext⟩ _ -
      obtain ⟨base, hbase, -⟩ := Option.bind_eq_some_iff.mp htext
      exact (readAt_iff.mp hbase).1
    · intro h
      rw [readAt_iff.mpr ⟨h pos hmatch, rfl⟩]
      exact ⟨_, rfl⟩

end Finders

/-- All reads stay in the file, and so do the ranges printed, iff the file is `Scannable`. -/
theorem scanBin_safe_iff (binary : List UInt8) (hlen : binary.length < 2 ^ 63) :
    (∃ out, scanBin binary = some out ∧ ∀ loc ∈ out.locs, loc.InFile binary) ↔ Scannable binary := by
  obtain ⟨fs, hfs, hfsIn⟩ := findFs_inFile hlen
  obtain ⟨getenv, hgetenv, hgetenvIn⟩ := findGetenv_inFile hlen
  obtain ⟨findexe, hfindexe, hfindexeIn⟩ := findFindexe_inFile hlen
  obtain ⟨memreuse, hmemreuse, hmemreuseIn⟩ := findMemreuse01_inFile hlen
  obtain ⟨depfile, hdepfile, hdepfileIn⟩ := findDepfile_inFile hlen
  have htext : scanReads binary textName [textFlags] 0 = some (scan binary textName [textFlags] 0) :=
    scanReads_eq hlen (sized_all (by decide)) (Nat.zero_le _)
  rw [scanBin]
  simp only [bind, hfs, hgetenv, hfindexe, hmemreuse, hdepfile, htext, Option.bind_some]
  constructor
  · rintro ⟨out, hout, hall⟩
    simp only [Option.bind_eq_some_iff, Option.some.injEq] at hout
    obtain ⟨init, hinit, text, hread, rfl⟩ := hout
    refine ⟨(findInit_iff hlen).mp ⟨init, hinit, fun loc hloc => hall loc ?_⟩,
      (scanBinText_iff hlen).mp ⟨text, hread⟩⟩
    simp [hloc]
  · rintro ⟨hinit, htext⟩
    obtain ⟨init, hinit, hinitIn⟩ := (findInit_iff hlen).mpr hinit
    obtain ⟨text, hread⟩ := (scanBinText_iff hlen).mpr htext
    refine ⟨_, by simp only [hinit, hread, Option.bind_some]; rfl, ?_⟩
    simp only [List.forall_mem_append]
    exact ⟨⟨⟨⟨⟨hfsIn, hinitIn⟩, hgetenvIn⟩, hfindexeIn⟩, hmemreuseIn⟩, hdepfileIn⟩

def initImage (args envp main : List UInt8) : List UInt8 :=
  initSentinel.data ++ List.replicate 5 0 ++ [0xe8] ++ args ++ [0xe8] ++ envp ++
    List.replicate 11 0 ++ [0xff, 0x35] ++ List.replicate 4 0 ++ [0xff, 0x35] ++
    List.replicate 4 0 ++ [0xff, 0x35] ++ List.replicate 4 0 ++ [0xe8] ++ main

/-- A call backwards: the displacement is taken without its sign. -/
theorem scan_leaves_file :
    scanBin (initImage [0xf0, 0xff, 0xff, 0xff] [0, 0, 0, 0] [0, 0, 0, 0]) = none := by
  decide +kernel

theorem scan_stays_in_file :
    ∃ out, scanBin (initImage [0, 0, 0, 0] [0, 0, 0, 0] [0, 0, 0, 0]) = some out ∧
      ∀ loc ∈ out.locs, loc.InFile (initImage [0, 0, 0, 0] [0, 0, 0, 0] [0, 0, 0, 0]) := by
  refine (scanBin_safe_iff _ (by decide +kernel)).mpr ⟨fun pos hpos => ?_, fun pos hpos => ?_⟩
  · have hzero : Matches (initImage [0, 0, 0, 0] [0, 0, 0, 0] [0, 0, 0, 0])
        (initSentinel :: initRest) 0 :=
      (Matches.head rfl).mpr ⟨by decide +kernel,
        (restMatch_iff (by decide +kernel) (by decide) (sized_all (by decide))).mp (by decide +kernel)⟩
    obtain rfl := Nat.le_zero.mp (hpos.2 hzero)
    refine ⟨by decide +kernel, by decide +kernel, by decide +kernel, fun e he => ?_⟩
    have hbound := prefix_bound (by decide) he.1.2
    have hnone : ∀ q < 56, ¬ endInitArgs <+:
        (initImage [0, 0, 0, 0] [0, 0, 0, 0] [0, 0, 0, 0]).drop q := by decide +kernel
    have hlen : (initImage [0, 0, 0, 0] [0, 0, 0, 0] [0, 0, 0, 0]).length = 56 := by decide +kernel
    have hsize : endInitArgs.length = 5 := rfl
    exact absurd he.1.2 (hnone e (by omega))
  · have hat := ((Matches.head rfl).mp hpos).1
    have hbound := prefix_bound textName.data_ne hat
    have hnone : ∀ q < 56, ¬ textName.data <+:
        (initImage [0, 0, 0, 0] [0, 0, 0, 0] [0, 0, 0, 0]).drop q := by decide +kernel
    have hlen : (initImage [0, 0, 0, 0] [0, 0, 0, 0] [0, 0, 0, 0]).length = 56 := by decide +kernel
    have hsize : textName.data.length = 8 := rfl
    exact absurd hat (hnone pos (by omega))

end Metroskrew.Patch
