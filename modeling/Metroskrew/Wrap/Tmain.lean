import Metroskrew.Wrap.Locate
import Metroskrew.Wrap.RemoveIpa

/-! `main` of the wrapper, outside Windows: it settles which tool to run, and runs it with what is left
of the arguments and an environment for its libraries. -/

namespace Metroskrew.Wrap.Tmain

open Metroskrew.Wrap.Locate Metroskrew.Wrap.ParseArgs Metroskrew.Wrap.RemoveIpa

abbrev Env := Arg → Option Arg

/-- What `posix_spawn` is called with. -/
structure Child where
  path : Arg
  argv : List Arg
  env : Env

/-- What `waitpid` says of the child. -/
inductive Status where
  | exited (code : ℕ)
  | signaled (sig : ℕ)
  deriving Repr, DecidableEq

def Status.code : Status → ℕ
  | .exited code => code
  | .signaled sig => 128 + sig

def exe : Arg := tchars ".exe"

def defaultVersion (toolBin : Arg) : Arg :=
  if toolBin = tchars "mwccarm" then tchars "-4.0-1051"
  else if toolBin = tchars "mwldarm" then tchars "-2.0-99"
  else if toolBin = tchars "mwasmarm" then tchars "-1.0-27"
  else []

/-- The directories under `tool_libdir`, with `;` between them. -/
def libraryPaths (toolLibdir : Arg) (dirs : List String) : Arg :=
  (tchars ";").intercalate (dirs.map fun dir => toolLibdir ++ pathSep ++ tchars dir)

def includeDirs : List String :=
  ["msl/MSL_C/MSL_ARM/Include", "msl/MSL_C/MSL_Common/Include",
    "msl/MSL_C/MSL_Common_Embedded/Math/Include", "msl/MSL_C++/MSL_ARM/Include",
    "msl/MSL_C++/MSL_Common/Include", "msl/MSL_Extras/MSL_Common/Include", "Profiler/include",
    "Runtime/Runtime_ARM/Runtime_NITRO/Common_Includes", "msl/MSL_Extras/MSL_ARM/Include"]

def libraryDirs : List String :=
  ["msl/MSL_C/MSL_ARM/Lib", "msl/MSL_C++/MSL_ARM/Lib", "msl/MSL_Extras/MSL_ARM/Lib",
    "Runtime/Runtime_ARM/Runtime_NITRO/Lib", "Mathlib/lib"]

def libraryFiles : Libarch → Arg
  | .v4 => tchars ("MSL_C_NITRO_Ai_LE.a;MSL_Extras_NITRO_Ai_LE.a;MSL_CPP_NITRO_Ai_LE.a;" ++
      "FP_fastI_v4t_LE.a;NITRO_Runtime_Ai_LE.a")
  | .v4t => tchars ("MSL_C_NITRO_T_LE.a;MSL_Extras_NITRO_T_LE.a;MSL_CPP_NITRO_T_LE.a;" ++
      "FP_fastI_v4t_LE.a;NITRO_Runtime_T_LE.a")
  | .v5 => tchars ("MSL_C_NITRO_Ai_LE.a;MSL_Extras_NITRO_Ai_LE.a;MSL_CPP_NITRO_Ai_LE.a;" ++
      "FP_fastI_v5t_LE.a;NITRO_Runtime_Ai_LE.a")
  | .v5t => tchars ("MSL_C_NITRO_T_LE.a;MSL_Extras_NITRO_T_LE.a;MSL_CPP_NITRO_T_LE.a;" ++
      "FP_fastI_v5t_LE.a;NITRO_Runtime_T_LE.a")

/-- `setenv_weak`: what is set already is left as it is. -/
def setenvWeak (name : Arg) (value : Option Arg) (env : Env) : Env :=
  match value with
  | none => env
  | some value => if (env name).isSome then env else Function.update env name (some value)

/-- An argument vector up to its terminator, which has to be there. -/
def readArgv : List (Option Arg) → Option (List Arg)
  | [] => none
  | none :: _ => some []
  | some arg :: rest => (arg :: ·) <$> readArgv rest

variable (config : Config) (w : World) (spawn : Child → Option Status)

def toolFile (args : WrapArgs) (datadir : Option Arg) (toolBin : Arg) : Except Stop Arg :=
  match args.wrapVer with
  | some toolVer => .ok (toolBin ++ tchars "-" ++ toolVer ++ exe)
  | none =>
    match args.wrapSdk with
    | some toolSdk => do
      match ← sdkVersion w datadir toolSdk toolBin exe with
      | none => .error .exit
      | some file => .ok file
    | none => .ok (toolBin ++ defaultVersion toolBin ++ exe)

def toolLibver (args : WrapArgs) (datadir : Option Arg) : Except Stop (Option Arg) :=
  match args.wrapLib with
  | some toolLib => .ok (some toolLib)
  | none =>
    match args.wrapSdk with
    | some toolSdk => sdkVersion w datadir toolSdk (tchars "lib") []
    | none => .ok none

/-- The arguments filtered for the tool, with the slot for its name. -/
def newArgv (args : WrapArgs) (newArgc : ℕ) (slots : List (Option Arg)) :
    Except Stop (List (Option Arg)) :=
  if args.wrapNoipa then Prod.snd <$> orFault (removeIpaArguments newArgc slots) else .ok slots

/-- `new_argv[0] = tool` -/
def setTool (tool : Arg) (slots : List (Option Arg)) : Except Stop (List (Option Arg)) :=
  if 0 < slots.length then .ok (slots.set 0 (some tool)) else .error .fault

def toolBin (wrapProg : Option Arg) (argv : List Arg) : Except Stop Arg :=
  match wrapProg with
  | some prog => .ok prog
  | none => orFault argv[1]?

def childEnv (args : WrapArgs) (toolLibdir : Option Arg) : Env :=
  let env := setenvWeak (tchars "MWCIncludes") (toolLibdir.map (libraryPaths · includeDirs)) w.env
  let env := setenvWeak (tchars "MWLibraries") (toolLibdir.map (libraryPaths · libraryDirs)) env
  let env := setenvWeak (tchars "MWLibraryFiles") (some (libraryFiles args.wrapLibarch)) env
  setenvWeak (tchars "SKREW_HACK01") args.wrapHack01 env

def execute (child : Child) : Except Stop (Child × ℕ) :=
  match spawn child with
  | none => .error .exit
  | some status => .ok (child, status.code)

/-- The child that is run, and the exit status. Without `wrapProg` the tool is the first argument. -/
def tmain (wrapProg : Option Arg) (argv : List Arg) : Except Stop (Child × ℕ) :=
  let minArgs := if wrapProg.isNone then 2 else 1
  if argv.length < minArgs then .error .exit
  else do
    let (args, newArgc, slots) ← orFault (parseArgs (argv.drop minArgs))
    let slots ← newArgv args newArgc slots
    let argv0 ← orFault argv[0]?
    let toolDir ← findSelf w argv0
    let datadir := findDatadir config w toolDir
    let libdir := findLibdir config w toolDir
    let toolBin ← toolBin wrapProg argv
    let file ← toolFile w args datadir toolBin
    let tool := toolDir ++ (if toolDir ≠ [] then pathSep else []) ++ file
    let slots ← setTool tool slots
    let libver ← toolLibver w args datadir
    let toolLibdir := libver.bind (libVersion w libdir)
    let childArgv ← orFault (readArgv slots)
    execute spawn ⟨tool, childArgv, childEnv w args toolLibdir⟩

/-! ### What it comes to -/

def parsed (argv : List Arg) : WrapArgs := ((groups argv).foldl Parse.read {}).result

/-- The arguments that the tool gets. -/
def kept (argv : List Arg) : List Arg :=
  if (parsed argv).wrapNoipa then dropPairs ipa (forwarded argv) else forwarded argv

variable {config w spawn}

lemma readArgv_eq (args : List Arg) (after : List (Option Arg)) :
    readArgv (args.map some ++ none :: after) = some args := by
  induction args with
  | nil => rfl
  | cons arg args ih =>
    rw [List.map_cons, List.cons_append, readArgv, ih]
    rfl

lemma newArgv_eq (argv : List Arg) :
    ∃ after, newArgv (parsed argv) (1 + (forwarded argv).length)
      (none :: (forwarded argv).map some ++ [none]) =
        .ok (none :: (kept argv).map some ++ none :: after) := by
  unfold newArgv kept
  split_ifs with hnoipa
  · obtain ⟨after, -, hremove⟩ := removeIpaArguments_eq (none :: (forwarded argv).map some)
    have hkept : dropPairs (some ipa) (none :: (forwarded argv).map some) =
        none :: (dropPairs ipa (forwarded argv)).map some := by
      rw [dropPairs_cons_of_ne (by simp), dropPairs_map (Option.some_injective Arg)]
    rw [hkept, List.length_cons, List.length_map, Nat.add_comm] at hremove
    exact ⟨after, by rw [hremove]; rfl⟩
  · exact ⟨[], rfl⟩

lemma fileRead_ne {path : Arg} {data : List UInt8} (h : fileRead w path = some data) :
    data ≠ [] := by
  unfold fileRead at h
  split at h
  · rw [← Option.some.inj h]
    exact List.cons_ne_nil _ _
  · cases h

lemma sdkVersion_ok (datadir : Option Arg) (ver tool suff : Arg) :
    ∃ text, sdkVersion w datadir ver tool suff = .ok text := by
  unfold sdkVersion
  split
  · exact ⟨none, rfl⟩
  · split
    · exact ⟨none, rfl⟩
    · next file hfile =>
      obtain ⟨dir, -, hread⟩ := List.exists_of_findSome?_eq_some hfile
      exact ⟨_, by rw [sdkText_eq (fileRead_ne hread)]; rfl⟩

lemma findSelf_ne_fault (argv0 : Arg) : findSelf w argv0 ≠ .error .fault := by
  unfold findSelf
  dsimp only
  split_ifs
  · split
    · simp
    · rw [readSelf_eq]
      simp [orFault, bind, Except.bind]
  · simp

lemma toolFile_ne_fault (args : WrapArgs) (datadir : Option Arg) (toolBin : Arg) :
    toolFile w args datadir toolBin ≠ .error .fault := by
  unfold toolFile
  split
  · simp
  · split
    · next toolSdk _ =>
      obtain ⟨text, htext⟩ := sdkVersion_ok (w := w) datadir toolSdk toolBin exe
      rw [htext]
      cases text <;> simp [bind, Except.bind]
    · simp

lemma libVersion_isDir {libdir : Option Arg} {ver path : Arg}
    (h : libVersion w libdir ver = some path) : w.isDir path = true := by
  unfold libVersion at h
  split at h
  · cases h
  · exact List.find?_some h

lemma toolLibver_ok (args : WrapArgs) (datadir : Option Arg) :
    ∃ libver, toolLibver w args datadir = .ok libver := by
  unfold toolLibver
  split
  · exact ⟨_, rfl⟩
  · split
    · exact sdkVersion_ok _ _ _ _
    · exact ⟨none, rfl⟩

/-- What is left to do once the arguments are read. -/
def launch (config : Config) (w : World) (spawn : Child → Option Status) (rest : List Arg)
    (argv0 toolBin : Arg) : Except Stop (Child × ℕ) := do
  let toolDir ← findSelf w argv0
  let datadir := findDatadir config w toolDir
  let file ← toolFile w (parsed rest) datadir toolBin
  let tool := toolDir ++ (if toolDir ≠ [] then pathSep else []) ++ file
  let libver ← toolLibver w (parsed rest) datadir
  let toolLibdir := libver.bind (libVersion w (findLibdir config w toolDir))
  execute spawn ⟨tool, tool :: kept rest, childEnv w (parsed rest) toolLibdir⟩

lemma tmain_eq (wrapProg : Option Arg) {argv : List Arg}
    (hlen : (if wrapProg.isNone then 2 else 1) ≤ argv.length) :
    ∃ argv0 prog, argv[0]? = some argv0 ∧ wrapProg.or argv[1]? = some prog ∧
      tmain config w spawn wrapProg argv =
        launch config w spawn (argv.drop (if wrapProg.isNone then 2 else 1)) argv0 prog := by
  obtain ⟨argv0, h0⟩ : ∃ argv0, argv[0]? = some argv0 :=
    ⟨_, List.getElem?_eq_getElem (by split_ifs at hlen <;> omega)⟩
  obtain ⟨prog, hprog, hbin⟩ : ∃ prog, wrapProg.or argv[1]? = some prog ∧
      toolBin wrapProg argv = .ok prog := by
    cases wrapProg with
    | none =>
      have h1 := List.getElem?_eq_getElem (show 1 < argv.length from hlen)
      exact ⟨_, h1, by rw [toolBin, h1]; rfl⟩
    | some prog => exact ⟨prog, rfl, rfl⟩
  refine ⟨argv0, prog, h0, hprog, ?_⟩
  obtain ⟨after, hslots⟩ := newArgv_eq (argv.drop (if wrapProg.isNone then 2 else 1))
  rw [tmain, launch]
  dsimp only
  rw [if_neg (Nat.not_lt.mpr hlen), parseArgs_eq, h0, hbin]
  change newArgv (parsed _) _ _ >>= _ = _
  rw [hslots]
  change findSelf w argv0 >>= _ = findSelf w argv0 >>= _
  apply bind_congr
  intro toolDir
  change toolFile w (parsed _) _ prog >>= _ = toolFile w (parsed _) _ prog >>= _
  apply bind_congr
  intro file
  rw [setTool, if_pos (by simp)]
  change toolLibver w (parsed _) _ >>= _ = toolLibver w (parsed _) _ >>= _
  apply bind_congr
  intro libver
  rw [List.cons_append, List.set_cons_zero, ← List.cons_append, ← List.map_cons, readArgv_eq]
  rfl

lemma execute_ok {child child' : Child} {code : ℕ} (h : execute spawn child = .ok (child', code)) :
    child' = child ∧ ∃ status, spawn child = some status ∧ code = status.code := by
  unfold execute at h
  split at h
  · cases h
  · next status hstatus =>
    simp only [Except.ok.injEq, Prod.mk.injEq] at h
    exact ⟨h.1.symm, status, hstatus, h.2.symm⟩

lemma bind_ok {α β : Type} {x : Except Stop α} {g : α → Except Stop β} {b : β}
    (h : (x >>= g) = .ok b) : ∃ a, x = .ok a ∧ g a = .ok b := by
  cases x with
  | error e => cases h
  | ok a => exact ⟨a, rfl, h⟩

lemma execute_ne_fault (child : Child) : execute spawn child ≠ .error .fault := by
  unfold execute
  split
  · simp
  · simp

lemma bind_ne_fault {α β : Type} {x : Except Stop α} {g : α → Except Stop β}
    (hx : x ≠ .error .fault) (hg : ∀ a, g a ≠ .error .fault) : (x >>= g) ≠ .error .fault := by
  cases x with
  | error e =>
    intro h
    apply hx
    cases h
    rfl
  | ok a => exact hg a

lemma launch_ne_fault (rest : List Arg) (argv0 prog : Arg) :
    launch config w spawn rest argv0 prog ≠ .error .fault := by
  apply bind_ne_fault (findSelf_ne_fault argv0)
  intro toolDir
  apply bind_ne_fault (toolFile_ne_fault _ _ _)
  intro file
  obtain ⟨libver, hlibver⟩ :=
    toolLibver_ok (w := w) (parsed rest) (findDatadir config w toolDir)
  rw [hlibver]
  exact execute_ne_fault _

lemma launch_ok {rest : List Arg} {argv0 prog : Arg} {child : Child} {code : ℕ}
    (h : launch config w spawn rest argv0 prog = .ok (child, code)) :
    ∃ toolLibdir, (∀ dir ∈ toolLibdir, w.isDir dir = true) ∧
      child = ⟨child.path, child.path :: kept rest, childEnv w (parsed rest) toolLibdir⟩ ∧
      ∃ status, spawn child = some status ∧ code = status.code := by
  obtain ⟨toolDir, -, h⟩ := bind_ok h
  obtain ⟨file, -, h⟩ := bind_ok h
  obtain ⟨libver, -, h⟩ := bind_ok h
  obtain ⟨rfl, hstatus⟩ := execute_ok h
  refine ⟨_, ?_, rfl, hstatus⟩
  intro dir hdir
  obtain ⟨ver, -, hver⟩ := Option.bind_eq_some_iff.mp hdir
  exact libVersion_isDir hver

/-- What is left of the arguments once the name of the program and that of the tool are taken. -/
def toolArgs (wrapProg : Option Arg) (argv : List Arg) : List Arg :=
  argv.drop (if wrapProg.isNone then 2 else 1)

/-- Every access of the program is inside its buffers. -/
lemma tmain_ne_fault (wrapProg : Option Arg) (argv : List Arg) :
    tmain config w spawn wrapProg argv ≠ .error .fault := by
  by_cases hlen : (if wrapProg.isNone then 2 else 1) ≤ argv.length
  · obtain ⟨argv0, prog, -, -, hmain⟩ := tmain_eq wrapProg hlen
    rw [hmain]
    exact launch_ne_fault _ _ _
  · rw [tmain]
    dsimp only
    rw [if_pos (Nat.not_le.mp hlen)]
    simp

lemma tmain_ok {wrapProg : Option Arg} {argv : List Arg} {child : Child} {code : ℕ}
    (h : tmain config w spawn wrapProg argv = .ok (child, code)) :
    ∃ toolLibdir, (∀ dir ∈ toolLibdir, w.isDir dir = true) ∧
      child = ⟨child.path, child.path :: kept (toolArgs wrapProg argv),
        childEnv w (parsed (toolArgs wrapProg argv)) toolLibdir⟩ ∧
      ∃ status, spawn child = some status ∧ code = status.code := by
  by_cases hlen : (if wrapProg.isNone then 2 else 1) ≤ argv.length
  · obtain ⟨argv0, prog, -, -, hmain⟩ := tmain_eq wrapProg hlen
    rw [hmain] at h
    exact launch_ok h
  · rw [tmain] at h
    dsimp only at h
    rw [if_pos (Nat.not_le.mp hlen)] at h
    cases h

end Metroskrew.Wrap.Tmain
