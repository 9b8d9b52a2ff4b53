import Metroskrew.Wrap.WinArgvParse

/-! What the quoting branch of `win_argv_build` appends is read back as the argument, and no store is
outside the buffer. -/

namespace Metroskrew.Wrap

open Metroskrew.Library.MsArgv

/-- A store into a buffer of `size` characters, which need not be `args_max`. -/
def Args.storeWithin (args : Args) (size : ℕ) (c : TCHAR) : Option Args :=
  if args.text.length < size then some { args with text := args.text ++ [c] } else none

/-- The last `realloc`, to `args_pos + 1` characters, and the terminator; `args_max` stays. -/
def Args.terminate (args : Args) : Option Args := args.storeWithin (args.text.length + 1) 0

def winArgvTerminated (argv : List (List TCHAR)) : Option (List TCHAR) := do
  let args ← argvLoop true argv { text := [], max := 1024 }
  let args ← args.terminate
  some args.text

lemma argvLoop_start (argv : List (List TCHAR)) (args : Args) :
    ∃ out, argvLoop true argv args = some out := by
  cases argv with
  | nil => exact ⟨args, rfl⟩
  | cons arg argv =>
    obtain ⟨max, harg⟩ := appendArg_encode args arg
    obtain ⟨max₁, hrest⟩ := argvLoop_commandTail argv ⟨args.text ++ encode arg, max⟩
    refine ⟨⟨args.text ++ encode arg ++ commandTail argv, max₁⟩, ?_⟩
    simp only [argvLoop, harg, bind, Option.bind_some, if_neg, reduceCtorEq, not_false_eq_true]
    exact hrest

lemma terminate_text (args : Args) : args.terminate = some ⟨args.text ++ [0], args.max⟩ :=
  if_pos (Nat.lt_succ_self _)

lemma parseArgs_quoteWord (arg : List TCHAR) : parseArgs msMarks (quoteWord msMarks arg) = [arg] := by
  have hread : readArg msMarks false 0 (quoteWord msMarks arg ++ []) = (arg, []) :=
    readArg_quoteWord arg (.inl rfl)
  rw [List.append_nil] at hread
  rw [quoteWord, parseArgs_cons (by decide), ← quoteWord, hread, parseArgs_nil]

/-- The quoting is exact, and every store of the loop is below `args_max`; the terminator is stored in
the `args_pos + 1` characters of the last `realloc`. -/
theorem winArgvBuild_exact :
    (∀ s, HasSpecial s → ∃ w,
      (∀ args, appendArg args s = quoteArg args s ∧
        ∃ max, quoteArg args s = some ⟨args.text ++ w, max⟩) ∧
      (∀ read ∈ [readArg msMarks, readArgDoubled msMarks], ∀ rest, rest.head? ≠ some quote →
        read false 0 (w ++ rest) = prepend s (read false 0 rest)) ∧
      parseArgs msMarks w = [s]) ∧
    ∀ argv, ∃ args, argvLoop true argv { text := [], max := 1024 } = some args ∧
      args.terminate = some { args with text := args.text ++ [0] } ∧
      winArgvBuild argv = some args.text ∧ winArgvTerminated argv = some (args.text ++ [0]) := by
  constructor
  · intro s hs
    refine ⟨quoteWord msMarks s, fun args => ⟨appendArg_special hs args, quoteArg_quoteWord args s⟩,
      ?_, parseArgs_quoteWord s⟩
    intro read hread rest hrest
    have hrules : Rules msMarks read := by
      rcases List.mem_cons.mp hread with rfl | hread
      · exact readArg_rules
      · obtain rfl := List.mem_singleton.mp hread
        exact readArgDoubled_rules
    exact hrules.read_quoteWord s hrest
  · intro argv
    obtain ⟨args, hargs⟩ := argvLoop_start argv ⟨[], 1024⟩
    have hend := terminate_text args
    refine ⟨args, hargs, hend, ?_, ?_⟩
    · rw [winArgvBuild, hargs]
      rfl
    · rw [winArgvTerminated, hargs, Option.bind_eq_bind, Option.bind_some, hend]
      rfl

lemma argvLoop_plain {arg : List TCHAR} (hplain : ¬ HasSpecial arg) {max : ℕ}
    (hlen : arg.length ≤ max) : argvLoop true [arg] ⟨[], max⟩ = some ⟨arg, max⟩ := by
  have hmax : (⟨[], max⟩ : Args).strResize arg.length = ⟨[], max⟩ := by
    rw [Args.strResize, strResizeMax, if_neg (by simpa using hlen)]
  have hstore := storeAll_of_le arg ⟨[], max⟩ (by simpa using hlen)
  simp only [argvLoop, if_neg (show ¬ true = false by decide), appendArg,
    if_pos (length_plain_iff.mpr hplain), hmax, hstore, bind, Option.bind_some, List.nil_append]

/-- A command line that fills the buffer has its terminator behind `args_max`. -/
theorem terminator_behind_max :
    ∃ args, argvLoop true [List.replicate 1024 0x61] { text := [], max := 1024 } = some args ∧
      args.terminate = some { args with text := args.text ++ [0] } ∧
      args.text.length = 1024 ∧ ¬ args.text.length < args.max := by
  have hplain : ¬ HasSpecial (List.replicate 1024 0x61) := by
    rintro ⟨c, hc, hspecial⟩
    rw [List.eq_of_mem_replicate hc] at hspecial
    exact absurd hspecial (by decide)
  have hloop := argvLoop_plain hplain (List.length_replicate.le : _ ≤ 1024)
  refine ⟨_, hloop, terminate_text _, List.length_replicate, ?_⟩
  dsimp only
  rw [List.length_replicate]
  exact Nat.lt_irrefl 1024

end Metroskrew.Wrap
