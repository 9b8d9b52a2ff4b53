import Metroskrew.Library.MachineCode
import Metroskrew.Patch.GasText
import Metroskrew.Patch.ScanBounds

/-! What patch.i makes of the locations that `scan_bin` prints: the symbols of the file it is included in,
and the uses of the `patch` macro with the code of each. -/

namespace Metroskrew.Patch.Hooks

open Metroskrew.Library.MachineCode Metroskrew.Patch.GasText Metroskrew.Patch.PatchMacros
open Metroskrew.Relink

inductive Sym where
  | code (name : String)
  | codeEnd (name : String)
  | addr (name : String)
  | raw (name : String)
  deriving Repr, DecidableEq

def Sym.name : Sym → String
  | .code name | .codeEnd name | .addr name | .raw name => name

abbrev Symbols := Sym → Option ℕ

/-- `pe_text_addr` plus what `pos` is past `pe_text_off` -/
def textPlace (text : TextDefs) (pos : ℕ) : ℕ := pos - text.peTextOff + text.peTextAddr

/-- What a line of the file does to the symbols. -/
def assign (text : TextDefs) (s : Symbols) : Line → Symbols
  | .code name start => Function.update s (.code name) (some start)
  | .codeEnd name stop => Function.update s (.codeEnd name) (some stop)
  | .addrInText name => Function.update s (.addr name) ((s (.code name)).map (textPlace text))
  | .addr name start => Function.update s (.addr name) (some start)
  | .raw name start => Function.update s (.raw name) (some start)

def symbolsFrom (text : TextDefs) (s : Symbols) (locs : List Loc) : Symbols :=
  (locs.flatMap (printLoc (some text))).foldl (assign text) s

/-- The symbols after all the locations, in the order in which they are printed. -/
def symbols (text : TextDefs) (locs : List Loc) : Symbols := symbolsFrom text (fun _ => none) locs

/-- The places that patch.i has a macro for. -/
inductive Hook where
  | fs1 | fs2 | initArgs | initEnvp | getenv | depfileBuild | fun00505340
  deriving Repr, DecidableEq

def Hook.name : Hook → String
  | .fs1 => "fs_1"
  | .fs2 => "fs_2"
  | .initArgs => "init_args"
  | .initEnvp => "init_envp"
  | .getenv => "getenv"
  | .depfileBuild => "depfile_build"
  | .fun00505340 => "FUN_00505340"

/-- `.ifdef` -/
def Hook.optional (hook : Hook) : Bool := hook = .depfileBuild ∨ hook = .fun00505340

/-- In the order of patch.i. -/
def hooks : List Hook :=
  [.fs1, .fs2, .initArgs, .initEnvp, .getenv, .depfileBuild, .fun00505340]

/-- The functions and variables that are brought in, where the linker puts them. -/
structure Externs where
  mainArgc : UInt32
  mainArgv : UInt32
  patchGetenv : UInt32
  depfileBuild : UInt32
  fun00505340 : UInt32
  deriving Repr, DecidableEq

variable (externs : Externs) (text : TextDefs) (syms : Symbols)

/-- The macros `patch_fs` and so on. -/
def instrs : Hook → Option (List Instr)
  | .fs1 | .fs2 => some [.clearEax, .pushEax]
  | .initArgs => do
    let argc ← syms (.addr "argc")
    let argv ← syms (.addr "argv")
    some [.loadEax externs.mainArgc, .storeEax argc.toUInt32, .loadEax externs.mainArgv,
      .storeEax argv.toUInt32, .ret]
  | .initEnvp => some [.ret]
  | .getenv => some [.jmp externs.patchGetenv]
  | .depfileBuild => some [.jmp externs.depfileBuild]
  | .fun00505340 => some [.jmp externs.fun00505340]

/-- `patch code_X, patch_X`. The jump in it is for the place of `code_X` in the linked program. -/
def hookUse (hook : Hook) : Option Use := do
  let code ← syms (.code hook.name)
  let codeEnd ← syms (.codeEnd hook.name)
  let body ← instrs externs syms hook
  some ⟨code, codeEnd, assemble (textPlace text code) body⟩

def hookUses : Option (List Use) :=
  (hooks.filter fun hook => !hook.optional || (syms (.code hook.name)).isSome).mapM
    (hookUse externs text syms)

/-! ### The symbols of a location -/

def lineName : Line → String
  | .code name _ | .codeEnd name _ | .addrInText name | .addr name _ | .raw name _ => name

variable {externs : Externs} {text : TextDefs} {syms : Symbols}

lemma assign_of_ne (s : Symbols) {line : Line} {sym : Sym} (h : sym.name ≠ lineName line) :
    assign text s line sym = s sym := by
  cases line <;>
    exact Function.update_of_ne (fun hsym => h (congrArg Sym.name hsym)) _ _

lemma foldl_assign_of_ne {sym : Sym} (lines : List Line) (s : Symbols)
    (h : ∀ line ∈ lines, sym.name ≠ lineName line) : lines.foldl (assign text) s sym = s sym := by
  induction lines generalizing s with
  | nil => rfl
  | cons line lines ih =>
    rw [List.foldl_cons, ih _ fun l hl => h l (List.mem_cons_of_mem line hl),
      assign_of_ne s (h line List.mem_cons_self)]

lemma assign_congr {s s' : Symbols} {name : String} (h : ∀ sym, Sym.name sym = name → s sym = s' sym)
    (line : Line) (sym : Sym) (hsym : sym.name = name) :
    assign text s line sym = assign text s' line sym := by
  by_cases hline : sym.name = lineName line
  · have hcode : s (.code (lineName line)) = s' (.code (lineName line)) :=
      h _ (hline.symm.trans hsym)
    cases line <;> simp only [assign, Function.update_apply] <;> split_ifs
    all_goals first | rfl | exact h sym hsym | exact congrArg _ hcode
  · rw [assign_of_ne s hline, assign_of_ne s' hline, h sym hsym]

lemma foldl_assign_congr {name : String} (lines : List Line) (s s' : Symbols)
    (h : ∀ sym, Sym.name sym = name → s sym = s' sym) (sym : Sym) (hsym : sym.name = name) :
    lines.foldl (assign text) s sym = lines.foldl (assign text) s' sym := by
  induction lines generalizing s s' with
  | nil => exact h sym hsym
  | cons line lines ih => exact ih _ _ (assign_congr h line)

lemma printLoc_name (t : Option TextDefs) (loc : Loc) :
    ∀ line ∈ printLoc t loc, lineName line = loc.name := by
  unfold printLoc
  dsimp only
  split_ifs <;> simp [lineName]

/-- Each location has symbols of its own. -/
lemma symbols_eq {locs : List Loc} (hnodup : (locs.map Loc.name).Nodup) {loc : Loc} (hloc : loc ∈ locs)
    {sym : Sym} (hsym : sym.name = loc.name) :
    symbols text locs sym = (printLoc (some text) loc).foldl (assign text) (fun _ => none) sym := by
  obtain ⟨front, back, rfl⟩ := List.append_of_mem hloc
  rw [List.map_append, List.map_cons, List.nodup_append, List.nodup_cons] at hnodup
  obtain ⟨-, ⟨hback, -⟩, hfront⟩ := hnodup
  have hothers : ∀ others : List Loc, loc.name ∉ others.map Loc.name →
      ∀ line ∈ others.flatMap (printLoc (some text)), loc.name ≠ lineName line := by
    intro others hnot line hline
    obtain ⟨other, hother, hline⟩ := List.mem_flatMap.mp hline
    rw [printLoc_name _ _ line hline]
    exact fun hname => hnot (hname ▸ List.mem_map_of_mem hother)
  have hfront' : loc.name ∉ front.map Loc.name := fun hmem =>
    hfront _ hmem _ List.mem_cons_self rfl
  rw [symbols, symbolsFrom, List.flatMap_append, List.flatMap_cons, List.foldl_append, List.foldl_append,
    foldl_assign_of_ne _ _ fun line hline => by rw [hsym]; exact hothers back hback line hline]
  apply foldl_assign_congr _ _ _ _ sym hsym
  intro sym' hsym'
  exact foldl_assign_of_ne _ _ fun line hline => by rw [hsym']; exact hothers front hfront' line hline

lemma symbols_none {locs : List Loc} {sym : Sym} (h : sym.name ∉ locs.map Loc.name) :
    symbols text locs sym = none := by
  apply foldl_assign_of_ne
  intro line hline hname
  obtain ⟨loc, hloc, hline⟩ := List.mem_flatMap.mp hline
  rw [printLoc_name _ _ line hline] at hname
  exact h (hname ▸ List.mem_map_of_mem hloc)

/-- A location that has a symbol is one of the list. -/
lemma loc_of_symbol {locs : List Loc} {sym : Sym} {v : ℕ} (h : symbols text locs sym = some v) :
    ∃ loc ∈ locs, loc.name = sym.name := by
  by_contra hno
  rw [symbols_none fun hmem => hno (List.mem_map.mp hmem)] at h
  cases h

variable {locs : List Loc} {loc : Loc}

lemma symbols_code (hnodup : (locs.map Loc.name).Nodup) (hloc : loc ∈ locs) :
    symbols text locs (.code loc.name) = if loc.stop ≠ 0 then some loc.start else none := by
  rw [symbols_eq hnodup hloc rfl]
  unfold printLoc
  dsimp only
  split_ifs <;> simp [assign]

lemma symbols_codeEnd (hnodup : (locs.map Loc.name).Nodup) (hloc : loc ∈ locs) :
    symbols text locs (.codeEnd loc.name) =
      if loc.stop ≠ 0 ∧ loc.stop ≠ loc.start then some loc.stop else none := by
  rw [symbols_eq hnodup hloc rfl]
  unfold printLoc
  dsimp only
  split_ifs <;> simp_all [assign]

/-! ### The blocks that are found -/

/-- How long the code of a macro is. -/
def Hook.size : Hook → ℕ
  | .fs1 | .fs2 => 3
  | .initArgs => 21
  | .initEnvp => 1
  | .getenv | .depfileBuild | .fun00505340 => 5

/-- The block of a hook is as long as its code, but for the one that ends at a pattern of its own. -/
def Fits (loc : Loc) : Prop :=
  ∀ hook : Hook, hook ≠ .initArgs → loc.name = hook.name → loc.stop ≠ 0 →
    loc.start + hook.size ≤ loc.stop

structure Printed (names : List String) (locs : List Loc) : Prop where
  names : (locs.map Loc.name).Sublist names
  fits : ∀ loc ∈ locs, Fits loc

lemma Printed.append {names names' : List String} {locs' : List Loc} (h : Printed names locs)
    (h' : Printed names' locs') : Printed (names ++ names') (locs ++ locs') where
  names := by
    rw [List.map_append]
    exact h.names.append h'.names
  fits := by
    intro loc hloc
    rcases List.mem_append.mp hloc with hloc | hloc
    · exact h.fits loc hloc
    · exact h'.fits loc hloc

lemma printed_nil (names : List String) : Printed names [] :=
  ⟨List.nil_sublist names, fun _ hloc => absurd hloc List.not_mem_nil⟩

lemma Printed.cons {name : String} {names : List String} {start stop : ℕ} {raw : Bool}
    (hfits : Fits ⟨name, start, stop, raw⟩) (h : Printed names locs) :
    Printed (name :: names) (⟨name, start, stop, raw⟩ :: locs) where
  names := h.names.cons_cons name
  fits := List.forall_mem_cons.mpr ⟨hfits, h.fits⟩

lemma fits_zero {name : String} {start : ℕ} {raw : Bool} : Fits ⟨name, start, 0, raw⟩ :=
  fun _ _ _ hstop => absurd rfl hstop

lemma fits_long (h : loc.start + 5 ≤ loc.stop) : Fits loc := by
  intro hook hargs _ _
  have hsize : hook.size ≤ 5 := by
    cases hook <;> first | exact absurd rfl hargs | decide
  omega

lemma mem_hooks (hook : Hook) : hook ∈ hooks := by
  cases hook <;> decide

lemma name_injective : Function.Injective Hook.name := by
  intro a b h
  revert h
  cases a <;> cases b <;> decide

lemma fits_other {name : String} {start stop : ℕ} {raw : Bool}
    (h : ∀ hook ∈ hooks, hook ≠ .initArgs → name ≠ hook.name) : Fits ⟨name, start, stop, raw⟩ :=
  fun hook hargs hname => absurd hname (h hook (mem_hooks hook) hargs)

lemma fits_found {name : String} {start : ℕ} {found : Option ℕ} {f : ℕ → ℕ}
    (h : ∀ e, found = some e → Fits ⟨name, start, f e, false⟩) :
    Fits ⟨name, start, (found.map f).getD 0, false⟩ := by
  cases found with
  | none => exact fits_zero
  | some e => exact h e rfl

variable {binary : List UInt8}

lemma le_skipNops (binary : List UInt8) (off : ℕ) : off ≤ skipNops binary off := by
  induction off using skipNops.induct binary with
  | case1 off hlt hnop ih =>
    rw [skipNops, dif_pos hlt, if_pos hnop]
    omega
  | case2 off hlt hnop => rw [skipNops, dif_pos hlt, if_neg hnop]
  | case3 off hlt => rw [skipNops, dif_neg hlt]

lemma memmemFrom_le {needle : List UInt8} {start e : ℕ}
    (h : memmemFrom binary needle start = some (some e)) : start ≤ e := by
  simp only [memmemFrom, bind, Option.bind_eq_some_iff, Option.some.injEq, Option.map_eq_some_iff] at h
  obtain ⟨hay, -, q, -, rfl⟩ := h
  exact Nat.le_add_right start q

lemma findFsLeft_printed (names : List String) {off : ℕ} {res : List Loc × Option ℕ}
    (h : findFsLeft binary [] names off = some res) : Printed names res.1 := by
  induction names generalizing off res with
  | nil =>
    simp only [findFsLeft, bind, Option.bind_eq_some_iff, Option.some.injEq] at h
    obtain ⟨left, -, rfl⟩ := h
    exact printed_nil []
  | cons name names ih =>
    simp only [findFsLeft, bind, Option.bind_eq_some_iff] at h
    obtain ⟨found, -, h⟩ := h
    cases found with
    | none =>
      cases h
      exact printed_nil _
    | some pos =>
      simp only [Option.bind_eq_some_iff, Option.some.injEq] at h
      obtain ⟨rest, hrest, rfl⟩ := h
      refine (ih hrest).cons (fits_long ?_)
      simp [fsCode]

lemma findInit_printed (h : findInit binary = some locs) :
    Printed ["envp", "argv", "argc", "init_args", "init_envp", "main"] locs := by
  simp only [findInit, bind, Option.bind_eq_some_iff] at h
  obtain ⟨found, -, h⟩ := h
  cases found with
  | none =>
    cases h
    exact printed_nil _
  | some off =>
    simp only [Option.bind_eq_some_iff, Option.some.injEq] at h
    obtain ⟨envp, -, argv, -, argc, -, args, -, argsEnd, -, env, -, envEnd, henvEnd, main, -, rfl⟩ := h
    apply Printed.cons fits_zero
    apply Printed.cons fits_zero
    apply Printed.cons fits_zero
    apply Printed.cons
    · exact fits_other (by decide)
    apply Printed.cons
    · apply fits_found
      intro e he hook hargs hname hstop
      rw [he] at henvEnd
      have hle := memmemFrom_le henvEnd
      have hskip := le_skipNops binary (e + endInitEnvp.length)
      have hsize : hook.size = 1 := by
        rw [name_injective (hname.symm.trans (show "init_envp" = Hook.initEnvp.name from rfl))]
        rfl
      have hlen : endInitEnvp.length = 2 := rfl
      dsimp only
      omega
    apply Printed.cons
    · exact fits_other (by decide)
    exact printed_nil []

lemma findEnding_printed {name : String} {code : Region} {endCode : List UInt8} {after : ℕ → ℕ}
    (hfits : ∀ start e, start ≤ e → Fits ⟨name, start, after e, false⟩)
    (h : findEnding binary name code endCode after = some locs) : Printed [name] locs := by
  simp only [findEnding, bind, Option.bind_eq_some_iff] at h
  obtain ⟨found, -, h⟩ := h
  cases found with
  | none =>
    cases h
    exact printed_nil _
  | some off =>
    simp only [Option.bind_eq_some_iff, Option.some.injEq] at h
    obtain ⟨found, hfound, rfl⟩ := h
    apply Printed.cons _ (printed_nil [])
    apply fits_found
    intro e he
    rw [he] at hfound
    exact hfits off e (memmemFrom_le hfound)

lemma findGetenv_printed (h : findGetenv binary = some locs) : Printed ["getenv"] locs := by
  apply findEnding_printed _ h
  intro start e he
  apply fits_long
  have hskip := le_skipNops binary (e + getenvEnd.length)
  have hlen : getenvEnd.length = 8 := rfl
  dsimp only
  omega

lemma findFindexe_printed (h : findFindexe binary = some locs) : Printed ["findexe"] locs := by
  apply findEnding_printed _ h
  intro start e _
  exact fits_other (by decide)

lemma findMemreuse01_printed (h : findMemreuse01 binary = some locs) :
    Printed ["FUN_00505340", "DAT_0063a798", "DAT_0063ccf0", "DAT_0063a828", "DAT_0063ccb0",
      "prog_malloc", "FUN_004f8b60"] locs := by
  simp only [findMemreuse01, bind, Option.bind_eq_some_iff] at h
  obtain ⟨found, -, h⟩ := h
  cases found with
  | none =>
    cases h
    exact printed_nil _
  | some off =>
    simp only [Option.bind_eq_some_iff, Option.some.injEq] at h
    obtain ⟨a, -, b, -, c, -, d, -, malloc, -, call, -, rfl⟩ := h
    apply Printed.cons
    · apply fits_long
      simp [Region.next, memreuseCode, memreuseEnd]
    apply Printed.cons fits_zero
    apply Printed.cons fits_zero
    apply Printed.cons fits_zero
    apply Printed.cons fits_zero
    apply Printed.cons
    · exact fits_other (by decide)
    apply Printed.cons
    · exact fits_other (by decide)
    exact printed_nil []

lemma findDepfile_printed (h : findDepfile binary = some locs) :
    Printed ["depfile_build", "depfile_get_target", "depfile_get_header",
      "off_depfile_struct__source", "off_depfile_struct__targets",
      "off_depfile_struct__num_headers", "off_depfile_struct__headers"] locs := by
  simp only [findDepfile, bind, Option.bind_eq_some_iff] at h
  obtain ⟨build, -, h⟩ := h
  cases build with
  | none =>
    cases h
    exact printed_nil _
  | some build =>
    simp only [Option.bind_eq_some_iff] at h
    obtain ⟨target, -, h⟩ := h
    cases target with
    | none =>
      cases h
      exact printed_nil _
    | some target =>
      simp only [Option.bind_eq_some_iff] at h
      obtain ⟨header, -, h⟩ := h
      cases header with
      | none =>
        cases h
        exact printed_nil _
      | some header =>
        simp only [Option.bind_eq_some_iff] at h
        obtain ⟨version, -, h⟩ := h
        cases version with
        | none =>
          cases h
          exact printed_nil _
        | some version =>
          obtain ⟨source, targets, numHeaders, headers⟩ := version
          cases h
          apply Printed.cons
          · exact fits_long (by simp [depfileCode])
          apply Printed.cons
          · exact fits_other (by decide)
          apply Printed.cons
          · exact fits_other (by decide)
          apply Printed.cons fits_zero
          apply Printed.cons fits_zero
          apply Printed.cons fits_zero
          apply Printed.cons fits_zero
          exact printed_nil []

def printedNames : List String :=
  ["fs_1", "fs_2", "fs_3"] ++ ["envp", "argv", "argc", "init_args", "init_envp", "main"] ++
    ["getenv"] ++ ["findexe"] ++
    ["FUN_00505340", "DAT_0063a798", "DAT_0063ccf0", "DAT_0063a828", "DAT_0063ccb0",
      "prog_malloc", "FUN_004f8b60"] ++
    ["depfile_build", "depfile_get_target", "depfile_get_header", "off_depfile_struct__source",
      "off_depfile_struct__targets", "off_depfile_struct__num_headers",
      "off_depfile_struct__headers"]

lemma scanBin_printed {out : ScanOut} (h : scanBin binary = some out) :
    Printed printedNames out.locs := by
  simp only [scanBin, bind, Option.bind_eq_some_iff, Option.some.injEq] at h
  obtain ⟨fs, hfs, init, hinit, getenv, hgetenv, findexe, hfindexe, memreuse01, hmemreuse01, depfile,
    hdepfile, -, -, text, -, rfl⟩ := h
  obtain ⟨res, hres, rfl⟩ := Option.map_eq_some_iff.mp hfs
  exact (((((findFsLeft_printed _ hres).append (findInit_printed hinit)).append
    (findGetenv_printed hgetenv)).append (findFindexe_printed hfindexe)).append
    (findMemreuse01_printed hmemreuse01)).append (findDepfile_printed hdepfile)

lemma printedNames_nodup : printedNames.Nodup := by decide

/-! ### The patched text -/

def blockOf (u : Use) : Use := { u with body := [] }

lemma spaced_iff {size lo hi : ℕ} (us : List Use) :
    Spaced size lo hi us ↔ Spaced size lo hi (us.map blockOf) ∧
      ∀ u ∈ us, u.code + u.body.length ≤ u.codeEnd := by
  induction us generalizing lo with
  | nil => simp [Spaced]
  | cons u us ih =>
    rw [List.map_cons, Spaced, Spaced, ih, List.forall_mem_cons]
    simp only [blockOf, List.length_nil, Nat.add_zero]
    constructor
    · rintro ⟨hlo, hbody, hrest, hfits⟩
      exact ⟨⟨hlo, by omega, hrest⟩, hbody, hfits⟩
    · rintro ⟨⟨hlo, -, hrest⟩, hbody, hfits⟩
      exact ⟨hlo, hbody, hrest, hfits⟩

/-! ### The uses -/

lemma instrs_length {hook : Hook} {body : List Instr} (h : instrs externs syms hook = some body)
    (place : ℕ) : (assemble place body).length = hook.size := by
  cases hook with
  | initArgs =>
    simp only [instrs, bind, Option.bind_eq_some_iff, Option.some.injEq] at h
    obtain ⟨argc, -, argv, -, rfl⟩ := h
    rfl
  | fs1 | fs2 | initEnvp | getenv | depfileBuild | fun00505340 =>
    cases h
    rfl

structure UseOf (externs : Externs) (text : TextDefs) (syms : Symbols) (hook : Hook) (u : Use) :
    Prop where
  code : syms (.code hook.name) = some u.code
  codeEnd : syms (.codeEnd hook.name) = some u.codeEnd
  body : ∃ is, instrs externs syms hook = some is ∧ u.body = assemble (textPlace text u.code) is

lemma hookUse_some_iff {hook : Hook} {u : Use} :
    hookUse externs text syms hook = some u ↔ UseOf externs text syms hook u := by
  simp only [hookUse, bind, Option.bind_eq_some_iff, Option.some.injEq]
  constructor
  · rintro ⟨code, hcode, codeEnd, hend, is, his, rfl⟩
    exact ⟨hcode, hend, is, his, rfl⟩
  · rintro ⟨hcode, hend, is, his, hbody⟩
    exact ⟨_, hcode, _, hend, is, his, by rw [← hbody]⟩

lemma UseOf.length {hook : Hook} {u : Use} (h : UseOf externs text syms hook u) :
    u.body.length = hook.size := by
  obtain ⟨is, his, hbody⟩ := h.body
  rw [hbody, instrs_length his]

lemma map_of_option_mapM {α β : Type} {f : α → Option β} {xs : List α} {ys : List β}
    (h : xs.mapM f = some ys) : xs.map f = ys.map some := by
  induction xs generalizing ys with
  | nil =>
    cases h
    rfl
  | cons x xs ih =>
    simp only [List.mapM_cons, bind, pure, Option.bind_eq_some_iff, Option.some.injEq] at h
    obtain ⟨y, hy, rest, hrest, rfl⟩ := h
    rw [List.map_cons, List.map_cons, hy, ih hrest]

/-- Every block with a macro is patched. -/
lemma use_of_code {uses : List Use} (h : hookUses externs text syms = some uses) {hook : Hook} {code : ℕ}
    (hcode : syms (.code hook.name) = some code) : ∃ u ∈ uses, UseOf externs text syms hook u := by
  have hin : hook ∈ hooks.filter fun hook => !hook.optional || (syms (.code hook.name)).isSome := by
    rw [List.mem_filter, hcode]
    exact ⟨mem_hooks hook, by simp⟩
  have hmem := List.mem_map_of_mem (f := hookUse externs text syms) hin
  rw [map_of_option_mapM h] at hmem
  obtain ⟨u, hu, huse⟩ := List.mem_map.mp hmem
  exact ⟨u, hu, hookUse_some_iff.mp huse.symm⟩

lemma mem_hookUses {uses : List Use} (h : hookUses externs text syms = some uses) (u : Use) :
    u ∈ uses ↔ ∃ hook, UseOf externs text syms hook u := by
  constructor
  · intro hu
    have hmem : some u ∈ uses.map some := List.mem_map_of_mem hu
    rw [← map_of_option_mapM h] at hmem
    obtain ⟨hook, -, huse⟩ := List.mem_map.mp hmem
    exact ⟨hook, hookUse_some_iff.mp huse⟩
  · rintro ⟨hook, huse⟩
    obtain ⟨v, hv, hvuse⟩ := use_of_code h huse.code
    have huv := (hookUse_some_iff.mpr hvuse).symm.trans (hookUse_some_iff.mpr huse)
    exact Option.some.inj huv ▸ hv

lemma UseOf.body_ne {hook : Hook} {u : Use} (h : UseOf externs text syms hook u) : u.body ≠ [] := by
  apply List.ne_nil_of_length_pos
  rw [h.length]
  cases hook <;> decide

lemma UseOf.fits {out : ScanOut} {u : Use} {hook : Hook} (hscan : scanBin binary = some out)
    (hprinted : locs.Perm out.locs) (hargs : hook ≠ .initArgs)
    (h : UseOf externs text (symbols text locs) hook u) : u.code + u.body.length ≤ u.codeEnd := by
  have hall := scanBin_printed hscan
  have hnodup : (locs.map Loc.name).Nodup :=
    (hprinted.map Loc.name).nodup_iff.mpr (printedNames_nodup.sublist hall.names)
  obtain ⟨loc, hloc, hname⟩ := loc_of_symbol h.code
  have hcode := h.code
  have hend := h.codeEnd
  rw [show hook.name = loc.name from hname.symm] at hcode hend
  rw [symbols_code hnodup hloc] at hcode
  rw [symbols_codeEnd hnodup hloc] at hend
  split_ifs at hcode hend with hstop hne
  have hfits := hall.fits loc (hprinted.mem_iff.mp hloc) hook hargs hname hstop
  rwa [h.length, ← Option.some.inj hcode, ← Option.some.inj hend]

/-- Whatever the binary, gas makes a text of the right length from what `scan_bin` prints iff the blocks
stand in the text in the order in which patch.i goes through them, none at once behind another, and
the one of `init_args` has room: all the others are as long as the code that is put in them. -/
theorem patched_iff (binary : List UInt8) (text : TextDefs) (found locs : List Loc)
    (externs : Externs) (uses : List Use) (hscan : scanBin binary = some ⟨some text, found⟩)
    (hprinted : locs.Perm found)
    (huses : hookUses externs text (symbols text locs) = some uses) :
    (∃ bytes, gasPeText (byteAt binary) binary.length text.peTextOff text.peTextLen uses =
        some bytes ∧ bytes.length = text.peTextLen) ↔
      Spaced binary.length text.peTextOff (text.peTextOff + text.peTextLen) (uses.map blockOf) ∧
        ∀ u, UseOf externs text (symbols text locs) .initArgs u → u.code + 21 ≤ u.codeEnd := by
  have hbodies : ∀ u ∈ uses, u.body ≠ [] := by
    intro u hu
    obtain ⟨hook, hof⟩ := (mem_hookUses huses u).mp hu
    exact hof.body_ne
  rw [gasPeText_iff hbodies, spaced_iff]
  apply and_congr_right
  intro _
  constructor
  · intro hfits u hu
    have hroom := hfits u ((mem_hookUses huses u).mpr ⟨_, hu⟩)
    rwa [hu.length] at hroom
  · intro hroom u hu
    obtain ⟨hook, hof⟩ := (mem_hookUses huses u).mp hu
    by_cases hargs : hook = .initArgs
    · subst hargs
      rw [hof.length]
      exact hroom u hof
    · exact hof.fits hscan hprinted hargs

/-- Two blocks of thread-local storage, the start of the program and the three functions after it, with
something of the program in front of each of them. -/
def startup : List UInt8 :=
  [[0x55], fsCode.data, [0xcc], fsCode.data, [0xcc], initSentinel.data, List.replicate 5 0,
    [0xe8], word 0x28, [0xe8], word 0x39, List.replicate 11 0,
    [0xff, 0x35], word 0x404008, [0xff, 0x35], word 0x404004, [0xff, 0x35], word 0x404000,
    [0xe8], word 0, [0xc3], List.replicate 5 0, endInitArgs, List.replicate 11 0,
    [0xcc], endInitEnvp, [0xcc], getenvCode.data, getenvEnd, [0xcc]].flatten

/-- An export directory, with two variables behind it. -/
def startupExports : List UInt8 :=
  [List.replicate 0x0c 0, word 0x3038, word 1, word 2, word 1, word 0x3028, word 0x3030, word 0x3034,
    word 0x3050, word 0x3054, word 0x303a, word 0, ascii "d", [0], ascii "g", [0],
    List.replicate 0x14 0, word 1, word 2].flatten

/-- Two blocks of strings, with the directories that lead to them. -/
def startupStrings : List UInt8 :=
  [List.replicate 0xc 0, word 0x10000, word 6, word 0x80000018,
    List.replicate 0xc 0, word 0x20000, word 7, word 0x80000038, word 9, word 0x80000050,
    List.replicate 0xc 0, word 0x10000, word 0x409, word 0x68,
    List.replicate 0xc 0, word 0x10000, word 0x409, word 0x78,
    word 0x5088, word 36, List.replicate 8 0, word 0x50ac, word 36, List.replicate 8 0,
    [2, 0, 0x48, 0, 0x69, 0], List.replicate 30 0,
    List.replicate 6 0, [2, 0, 0x6f, 0, 0x6b, 0], List.replicate 24 0, List.replicate 4 0].flatten

/-- An import directory with one library and two functions. -/
def startupImports : List UInt8 :=
  [word 0x7044, word 0x7048, word 0, word 0x7044, word 0x7048, word 0,
    word 0x700c, word 0, word 0, word 0x7040, word 0x7000, List.replicate 20 0,
    ascii "k", [0, 0, 0], [0, 0], ascii "f", [0], [0, 0], ascii "h", [0]].flatten

def startupImage : List UInt8 :=
  [List.replicate 0x3c 0, word 0x80, List.replicate 0x40 0,
    peBytes 8 0x78 0x1000 0x400000 [(0x3000, 0x28), (0x7018, 0x28), (0x5000, 0xd0)],
    sectionBytes (ascii ".text") 0x81 0x1000 0x81 0x250 0x60000020,
    sectionBytes (ascii ".exc") 4 0x2000 4 0x2d1 0x40000040,
    sectionBytes (ascii ".rdata") 0x58 0x3000 0x58 0x2d5 0x40000040,
    sectionBytes (ascii ".data") 0x10 0x4000 0x10 0x32d 0xc0000040,
    sectionBytes (ascii ".rsrc") 0xd4 0x5000 0xd4 0x33d 0x40000040,
    sectionBytes (ascii ".CRT") 4 0x6000 4 0x411 0x40000040,
    sectionBytes (ascii ".idata") 0x4c 0x7000 0x4c 0x415 0xc0000040,
    sectionBytes (ascii ".bss") 0x20 0x8000 0 0 0xc0000080,
    startup, word 1, startupExports, List.replicate 0x10 0, startupStrings, word 2, startupImports].flatten

def startupText : TextDefs := ⟨0x250, 0x81, 0x401000⟩

def startupLocs : List Loc :=
  [⟨"fs_1", 0x251, 0x25f, false⟩, ⟨"fs_2", 0x260, 0x26e, false⟩, ⟨"envp", 0x404008, 0, false⟩,
    ⟨"argv", 0x404004, 0, false⟩, ⟨"argc", 0x404000, 0, false⟩, ⟨"init_args", 0x2a8, 0x2bd, false⟩,
    ⟨"init_envp", 0x2be, 0x2c0, false⟩, ⟨"main", 0x2a7, 0x2a7, false⟩, ⟨"getenv", 0x2c1, 0x2d0, false⟩]

def startupExterns : Externs := ⟨0x411000, 0x411004, 0x410000, 0x410010, 0x410020⟩

def startupUses : List Use :=
  [⟨0x251, 0x25f, [0x31, 0xc0, 0x50]⟩, ⟨0x260, 0x26e, [0x31, 0xc0, 0x50]⟩,
    ⟨0x2a8, 0x2bd, [0xa1, 0x00, 0x10, 0x41, 0x00, 0xa3, 0x00, 0x40, 0x40, 0x00,
      0xa1, 0x04, 0x10, 0x41, 0x00, 0xa3, 0x04, 0x40, 0x40, 0x00, 0xc3]⟩,
    ⟨0x2be, 0x2c0, [0xc3]⟩, ⟨0x2c1, 0x2d0, [0xe9, 0x8a, 0xef, 0x00, 0x00]⟩]

lemma startup_scanned : scanBin startupImage = some ⟨some startupText, startupLocs⟩ := by
  decide +kernel

lemma startup_used :
    hookUses startupExterns startupText (symbols startupText startupLocs) = some startupUses := by
  decide +kernel

lemma startup_spaced : Spaced startupImage.length 0x250 (0x250 + 0x81) startupUses := by decide +kernel

theorem patched_startup : ∃ bytes, gasPeText (byteAt startupImage) startupImage.length 0x250 0x81
    startupUses = some bytes ∧ bytes.length = 0x81 := by
  refine (patched_iff startupImage startupText startupLocs startupLocs startupExterns startupUses
    startup_scanned (List.Perm.refl _) startup_used).mpr ⟨by decide +kernel, ?_⟩
  intro u hu
  have hcode : symbols startupText startupLocs (.code "init_args") = some 0x2a8 := by decide +kernel
  have hend : symbols startupText startupLocs (.codeEnd "init_args") = some 0x2bd := by
    decide +kernel
  rw [← Option.some.inj (hcode.symm.trans hu.code), ← Option.some.inj (hend.symm.trans hu.codeEnd)]

end Metroskrew.Patch.Hooks
