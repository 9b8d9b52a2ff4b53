import Metroskrew.Wrap.Tmain

/-! What the tool is run with: its arguments, what it reads of the environment, and that the libraries
are those of its own options. -/

namespace Metroskrew.Wrap.Child

open Metroskrew.Wrap.Locate Metroskrew.Wrap.ParseArgs Metroskrew.Wrap.RemoveIpa Metroskrew.Wrap.Tmain

/-- The variables that `patch_getenv` looks up, and those that it hides. -/
def passedNames : List Arg :=
  ["MWCARMIncludes", "MWCIncludes", "MWARMLibraries", "MWLibraries", "MWARMLibraryFiles",
    "MWLibraryFiles", "MWAsmARMIncludes", "MWAsmIncludes", "MWASMARMINCLUDES",
    "MWASMINCLUDES"].map tchars

def hiddenNames : List Arg :=
  ["MW_CYGDRIVE_PREFIX", "MW_CYGWIN_ROOT", "PATH", "LM_LICENSE_FILE", "TEMP", "TMP",
    "TMPDIR"].map tchars

/-- `patch_getenv`; the tool is stopped at any other name. -/
def patchGetenv (env : Env) (name : Arg) : Option (Option Arg) :=
  if hiddenNames.any fun hidden => name = hidden then some none
  else if passedNames.any fun passed => name = passed then some (env name)
  else none

/-- What the wrapper would set. -/
def added (args : WrapArgs) (toolLibdir : Option Arg) (name : Arg) : Option Arg :=
  if name = tchars "MWCIncludes" then toolLibdir.map (libraryPaths · includeDirs)
  else if name = tchars "MWLibraries" then toolLibdir.map (libraryPaths · libraryDirs)
  else if name = tchars "MWLibraryFiles" then some (libraryFiles args.wrapLibarch)
  else if name = tchars "SKREW_HACK01" then args.wrapHack01
  else none

lemma names_ne :
    tchars "MWCIncludes" ≠ tchars "MWLibraries" ∧ tchars "MWCIncludes" ≠ tchars "MWLibraryFiles" ∧
      tchars "MWCIncludes" ≠ tchars "SKREW_HACK01" ∧
      tchars "MWLibraries" ≠ tchars "MWLibraryFiles" ∧
      tchars "MWLibraries" ≠ tchars "SKREW_HACK01" ∧
      tchars "MWLibraryFiles" ≠ tchars "SKREW_HACK01" := by
  decide +kernel

lemma setenvWeak_apply (name : Arg) (value : Option Arg) (env : Env) (name' : Arg) :
    setenvWeak name value env name' = (env name').or (if name' = name then value else none) := by
  unfold setenvWeak
  by_cases hname : name' = name
  · subst hname
    rw [if_pos rfl]
    cases hset : env name' with
    | none => cases value <;> simp [hset]
    | some old => cases value <;> simp [hset]
  · rw [if_neg hname, Option.or_none]
    cases value with
    | none => rfl
    | some value =>
      dsimp only
      split_ifs
      · rfl
      · exact Function.update_of_ne hname _ _

/-- What the user has set stays. -/
lemma childEnv_eq {w : World} (args : WrapArgs) (toolLibdir : Option Arg) (name : Arg) :
    childEnv w args toolLibdir name = (w.env name).or (added args toolLibdir name) := by
  unfold childEnv added
  rw [setenvWeak_apply, setenvWeak_apply, setenvWeak_apply, setenvWeak_apply]
  rw [Option.or_assoc, Option.or_assoc, Option.or_assoc]
  congr 1
  obtain ⟨hcl, hcf, hch, hlf, hlh, hfh⟩ := names_ne
  by_cases hc : name = tchars "MWCIncludes"
  · subst hc
    simp [hcl, hcf, hch]
  by_cases hl : name = tchars "MWLibraries"
  · subst hl
    simp [hcl.symm, hlf, hlh]
  by_cases hf : name = tchars "MWLibraryFiles"
  · subst hf
    simp [hcf.symm, hlf.symm, hfh]
  · simp [hc, hl, hf]

lemma kept_sublist (argv : List Arg) : (kept argv).Sublist argv := by
  unfold kept
  split_ifs
  · exact (dropPairs_sublist _).trans (forwarded_sublist argv)
  · exact forwarded_sublist argv

variable {config : Config} {w : World} {spawn : Child → Option Status}

/-- Whatever the wrapper is called with, it reads no argument and no text past its end, and where it runs
a tool: the tool gets its own path and the arguments that are meant for it, in their order; every
variable that the user has set is as it was, and only the four of the wrapper may be new; and the
exit code is that of the tool. -/
theorem tmain_child (config : Config) (w : World) (spawn : Child → Option Status)
    (wrapProg : Option Arg) (argv : List Arg) :
    tmain config w spawn wrapProg argv ≠ .error .fault ∧
      ∀ child code, tmain config w spawn wrapProg argv = .ok (child, code) →
        child.argv = child.path :: kept (toolArgs wrapProg argv) ∧
        (kept (toolArgs wrapProg argv)).Sublist (toolArgs wrapProg argv) ∧
        ((parsed (toolArgs wrapProg argv)).wrapNoipa = true →
          ipa ∉ (kept (toolArgs wrapProg argv)).dropLast) ∧
        (∃ toolLibdir, (∀ dir ∈ toolLibdir, w.isDir dir = true) ∧
          ∀ name, child.env name =
            (w.env name).or (added (parsed (toolArgs wrapProg argv)) toolLibdir name)) ∧
        ∃ status, spawn child = some status ∧ code = status.code := by
  refine ⟨tmain_ne_fault wrapProg argv, ?_⟩
  intro child code h
  obtain ⟨toolLibdir, hdir, hchild, hstatus⟩ := tmain_ok h
  refine ⟨?_, kept_sublist _, ?_, ⟨toolLibdir, hdir, ?_⟩, hstatus⟩
  · rw [hchild]
  · intro hnoipa
    rw [kept, if_pos hnoipa]
    exact dropPairs_marks _
  · intro name
    rw [hchild]
    exact childEnv_eq _ _ _

/-- Nothing but the wrapper, and a tool that returns 3. -/
def bareWorld : World := ⟨none, fun _ => none, fun _ => none, fun _ => false⟩

def thumbArgv : List Arg :=
  [tchars "d/skrewrap", tchars "mwccarm", tchars "-wrap:ver", tchars "2.0", tchars "-wrap:noipa",
    tchars "-ipa", tchars "file", tchars "-thumb", tchars "a.c"]

lemma thumb_runs :
    ∃ child, tmain ⟨[], []⟩ bareWorld (fun _ => some (.exited 3)) none thumbArgv = .ok (child, 3) := by
  have hcode : (tmain ⟨[], []⟩ bareWorld (fun _ => some (.exited 3)) none thumbArgv).toOption.map
      Prod.snd = some 3 := by
    decide +kernel
  obtain ⟨⟨child, code⟩, hrun, hsnd⟩ := Option.map_eq_some_iff.mp hcode
  refine ⟨child, ?_⟩
  cases hresult : tmain ⟨[], []⟩ bareWorld (fun _ => some (.exited 3)) none thumbArgv with
  | error stop =>
    rw [hresult] at hrun
    cases hrun
  | ok ran =>
    rw [hresult] at hrun
    obtain rfl : ran = (child, code) := Option.some.inj hrun
    rw [show code = 3 from hsnd]

lemma thumb_kept : kept (toolArgs none thumbArgv) = [tchars "-thumb", tchars "a.c"] := by
  decide +kernel

theorem tmain_child_thumb :
    ∃ child : Child, child.argv = [child.path, tchars "-thumb", tchars "a.c"] ∧
      child.env (tchars "MWCIncludes") = none := by
  obtain ⟨child, hrun⟩ := thumb_runs
  obtain ⟨hargv, -, -, ⟨toolLibdir, hdir, henv⟩, -⟩ := (tmain_child ⟨[], []⟩ bareWorld
    (fun _ => some (.exited 3)) none thumbArgv).2 child 3 hrun
  refine ⟨child, ?_, ?_⟩
  · rw [hargv, thumb_kept]
  · have hnone : toolLibdir = none :=
      Option.eq_none_iff_forall_not_mem.mpr fun dir h => Bool.false_ne_true (hdir dir h)
    rw [henv, hnone]
    decide +kernel

/-! ### The libraries -/

lemma ipa_ne (opt : Opt) : ipa ≠ opt.text := by
  cases opt <;> decide +kernel

lemma read_of_ne {arg : Arg} (h : ∀ opt : Opt, arg ≠ opt.text) (s : Parse) : s.read [arg] = s := by
  simp [Parse.read, h]

lemma groups_of_ne {arg : Arg} (h : ∀ opt : Opt, arg ≠ opt.text) (rest : List Arg) :
    groups (arg :: rest) = [arg] :: groups rest := by
  rw [groups, values_of_ne h]
  rfl

/-- Each `-ipa` stands on its own, and what goes with it is no option. -/
structure Separate (argv : List Arg) : Prop where
  own : ∀ group ∈ groups argv, ipa ∈ group → group = [ipa]
  next : ∀ front x back, argv = front ++ ipa :: x :: back → ∀ opt : Opt, x ≠ opt.text

lemma Separate.drop (front : List Arg) {back : List Arg} {gs : List (List Arg)} (h : Separate (front ++ back))
    (hgroups : groups (front ++ back) = gs ++ groups back) : Separate back where
  own group hgroup := h.own group (by rw [hgroups]; exact List.mem_append_right gs hgroup)
  next front' x back' hback :=
    h.next (front ++ front') x back' (by rw [hback, List.append_assoc])

lemma Separate.foldl_read {argv : List Arg} (h : Separate argv) (s : Parse) :
    (groups (dropPairs ipa argv)).foldl Parse.read s = (groups argv).foldl Parse.read s := by
  match argv with
  | [] => rfl
  | [arg] => rfl
  | arg :: x :: back =>
    by_cases hipa : arg = ipa
    · subst hipa
      have hx := h.next [] x back rfl
      have hgroups : groups (ipa :: x :: back) = [[ipa], [x]] ++ groups back := by
        rw [groups_of_ne ipa_ne, groups_of_ne hx]
        rfl
      rw [dropPairs, if_pos rfl, (h.drop [ipa, x] hgroups).foldl_read s, hgroups]
      rw [List.foldl_append, List.foldl_cons, List.foldl_cons, List.foldl_nil, read_of_ne ipa_ne,
        read_of_ne hx]
    · by_cases hvalued : arg ∈ valued
      · have hone : values arg = 1 := if_pos hvalued
        have hgroups : ∀ rest, groups (arg :: x :: rest) = [[arg, x]] ++ groups rest := by
          intro rest
          rw [groups, hone]
          rfl
        have hx : x ≠ ipa := by
          intro hx
          have hown := h.own [arg, x] (by rw [hgroups]; simp) (by simp [hx])
          simp at hown
        rw [dropPairs_cons_of_ne hipa, dropPairs_cons_of_ne hx, hgroups, hgroups]
        exact (h.drop [arg, x] (hgroups back)).foldl_read (s.read [arg, x])
      · have hnone : values arg = 0 := if_neg hvalued
        have hgroups : ∀ rest, groups (arg :: rest) = [[arg]] ++ groups rest := by
          intro rest
          rw [groups, hnone]
          rfl
        rw [dropPairs_cons_of_ne hipa, hgroups, hgroups]
        exact (h.drop [arg] (hgroups (x :: back))).foldl_read (s.read [arg])
termination_by argv.length

lemma parsed_forwarded (argv : List Arg) :
    parsed (forwarded argv) = { wrapLibarch := (parsed argv).wrapLibarch } := by
  have hread : (groups (forwarded argv)).foldl Parse.read {} =
      ((groups argv).foldl Parse.read {}).forget := by
    rw [forget_foldl_read, groups_forwarded]
    rfl
  rw [parsed, hread]
  rfl

lemma parsed_kept {argv : List Arg}
    (h : (parsed argv).wrapNoipa = true → Separate (forwarded argv)) :
    parsed (kept argv) = { wrapLibarch := (parsed argv).wrapLibarch } := by
  rw [← parsed_forwarded, kept]
  split_ifs with hnoipa
  · rw [parsed, (h hnoipa).foldl_read]
    rfl
  · rfl

/-- The arguments of the tool have no option of the wrapper, and the library files that it is given are
those of the processor and the mode that these arguments ask for. -/
theorem libraries_agree {wrapProg : Option Arg} {argv : List Arg} {child : Child} {code : ℕ}
    (h : tmain config w spawn wrapProg argv = .ok (child, code))
    (huser : w.env (tchars "MWLibraryFiles") = none)
    (hipa : (parsed (toolArgs wrapProg argv)).wrapNoipa = true →
      Separate (forwarded (toolArgs wrapProg argv))) :
    ∃ libarch, parsed child.argv.tail = { wrapLibarch := libarch } ∧
      patchGetenv child.env (tchars "MWLibraryFiles") = some (some (libraryFiles libarch)) := by
  obtain ⟨toolLibdir, -, hchild, -⟩ := tmain_ok h
  refine ⟨(parsed (toolArgs wrapProg argv)).wrapLibarch, ?_, ?_⟩
  · rw [hchild]
    exact parsed_kept hipa
  · obtain ⟨-, hcf, -, hlf, -, -⟩ := names_ne
    have hadded : added (parsed (toolArgs wrapProg argv)) toolLibdir (tchars "MWLibraryFiles") =
        some (libraryFiles (parsed (toolArgs wrapProg argv)).wrapLibarch) := by
      rw [added, if_neg hcf.symm, if_neg hlf.symm, if_pos rfl]
    rw [patchGetenv, if_neg (by decide +kernel), if_pos (by decide +kernel), hchild]
    dsimp only
    rw [childEnv_eq, huser, Option.none_or, hadded]

lemma thumb_separate : Separate (forwarded (toolArgs none thumbArgv)) where
  own := by decide +kernel
  next := by
    intro front x back h
    have hargs : forwarded (toolArgs none thumbArgv) =
        [ipa, tchars "file", tchars "-thumb", tchars "a.c"] := by
      decide +kernel
    rw [hargs] at h
    have hfront : front = [] := by
      by_contra hne
      obtain ⟨first, front, rfl⟩ := List.exists_cons_of_ne_nil hne
      have hmem : ipa ∈ [tchars "file", tchars "-thumb", tchars "a.c"] := by
        rw [(List.cons.inj h).2]
        simp
      exact absurd hmem (by decide +kernel)
    subst hfront
    obtain rfl : tchars "file" = x := (List.cons.inj (List.cons.inj h).2).1
    intro opt
    cases opt <;> decide +kernel

theorem libraries_agree_thumb :
    ∃ child : Child, child.argv.tail = [tchars "-thumb", tchars "a.c"] ∧
      patchGetenv child.env (tchars "MWLibraryFiles") = some (some (libraryFiles .v5t)) := by
  obtain ⟨child, hrun⟩ := thumb_runs
  obtain ⟨toolLibdir, -, hchild, -⟩ := tmain_ok hrun
  have htail : child.argv.tail = [tchars "-thumb", tchars "a.c"] := by
    rw [hchild]
    exact thumb_kept
  obtain ⟨libarch, hparsed, hfiles⟩ := libraries_agree hrun rfl fun _ => thumb_separate
  have harch : libarch = .v5t := by
    have hthumb : parsed [tchars "-thumb", tchars "a.c"] = { wrapLibarch := .v5t } := by
      decide +kernel
    rw [htail, hthumb] at hparsed
    exact (congrArg WrapArgs.wrapLibarch hparsed).symm
  exact ⟨child, htail, by rw [hfiles, harch]⟩

end Metroskrew.Wrap.Child
