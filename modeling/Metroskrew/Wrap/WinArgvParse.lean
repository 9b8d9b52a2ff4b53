import Mathlib.Data.List.TakeWhile
import Metroskrew.Library.MsArgv
import Metroskrew.Wrap.WinArgv

/-! Which arguments the Windows parser gets back from the command line of `win_argv_build`. -/

namespace Metroskrew.Wrap

open Metroskrew.Library.MsArgv

def msMarks : Marks TCHAR where
  isBlank c := c = 0x20 ∨ c = 0x09
  quote := quote
  slash := backslash
  quote_ne_slash := by decide
  quote_not_blank := by decide
  slash_not_blank := by decide

def HasSpecial (arg : List TCHAR) : Prop := ∃ c ∈ arg, c ∈ special

instance (arg : List TCHAR) : Decidable (HasSpecial arg) :=
  inferInstanceAs (Decidable (∃ c ∈ arg, c ∈ special))

def encode (arg : List TCHAR) : List TCHAR :=
  if HasSpecial arg then quoteWord msMarks arg else arg

def commandTail (args : List (List TCHAR)) : List TCHAR := args.flatMap fun arg => 0x20 :: encode arg

lemma escape_cons (c : TCHAR) (k : ℕ) (arg : List TCHAR) :
    escape msMarks k (c :: arg) =
      if c = backslash then c :: escape msMarks (k + 1) arg
      else if c = quote then List.replicate (k + 1) backslash ++ c :: escape msMarks 0 arg
      else c :: escape msMarks 0 arg := rfl

lemma escapeBefore_escape (c : TCHAR) (k : ℕ) (args : Args) :
    ∃ max k' pre, escapeBefore c k args = some (⟨args.text ++ pre, max⟩, k') ∧
      ∀ arg, escape msMarks k (c :: arg) = pre ++ c :: escape msMarks k' arg := by
  by_cases hs : c = backslash
  · exact ⟨args.max, k + 1, [], by rw [escapeBefore, if_pos hs, List.append_nil],
      fun arg => by rw [escape_cons, if_pos hs, List.nil_append]⟩
  · by_cases hq : c = quote
    · obtain ⟨max, hstore⟩ := strResize_storeAll args (List.replicate (k + 1) backslash)
      rw [List.length_replicate] at hstore
      refine ⟨max, 0, List.replicate (k + 1) backslash, ?_, fun arg => ?_⟩
      · rw [escapeBefore, if_neg hs, if_pos hq]
        simp [hstore]
      · rw [escape_cons, if_neg hs, if_pos hq]
    · exact ⟨args.max, 0, [], by rw [escapeBefore, if_neg hs, if_neg hq, List.append_nil],
        fun arg => by rw [escape_cons, if_neg hs, if_neg hq, List.nil_append]⟩

lemma quoteLoop_escape (arg : List TCHAR) (k : ℕ) (args : Args) :
    ∃ max n body, quoteLoop arg k args = some (⟨args.text ++ body, max⟩, n) ∧
      escape msMarks k arg = body ++ List.replicate n backslash := by
  induction arg generalizing k args with
  | nil => exact ⟨args.max, k, [], by rw [quoteLoop, List.append_nil], rfl⟩
  | cons c arg ih =>
    obtain ⟨max, k', pre, hbefore, hescape⟩ := escapeBefore_escape c k args
    obtain ⟨max', hstore⟩ := strResize_store ⟨args.text ++ pre, max⟩ c
    obtain ⟨max₂, n, body, hloop, hbody⟩ := ih k' ⟨args.text ++ pre ++ [c], max'⟩
    refine ⟨max₂, n, pre ++ c :: body, ?_, ?_⟩
    · simp only [quoteLoop, hbefore, hstore, bind, Option.bind_some]
      rw [hloop]
      simp
    · rw [hescape, hbody, List.append_assoc, List.cons_append]

lemma escapeFinal_replicate (n : ℕ) (args : Args) :
    ∃ max, escapeFinal n args = some ⟨args.text ++ List.replicate n backslash, max⟩ := by
  by_cases hn : n = 0
  · subst hn
    exact ⟨args.max, by simp [escapeFinal]⟩
  · obtain ⟨max, hstore⟩ := strResize_storeAll args (List.replicate n backslash)
    rw [List.length_replicate] at hstore
    exact ⟨max, by rw [escapeFinal, if_pos hn, hstore]⟩

lemma quoteArg_quoteWord (args : Args) (arg : List TCHAR) :
    ∃ max, quoteArg args arg = some ⟨args.text ++ quoteWord msMarks arg, max⟩ := by
  obtain ⟨max, hopen⟩ := strResize_store args quote
  obtain ⟨max₁, n, body, hloop, hbody⟩ := quoteLoop_escape arg 0 ⟨args.text ++ [quote], max⟩
  obtain ⟨max₂, hfinal⟩ := escapeFinal_replicate n ⟨args.text ++ [quote] ++ body, max₁⟩
  obtain ⟨max₃, hclose⟩ :=
    strResize_store ⟨args.text ++ [quote] ++ body ++ List.replicate n backslash, max₂⟩ quote
  refine ⟨max₃, ?_⟩
  simp only [quoteArg, hopen, hloop, hfinal, hclose, bind, Option.bind_some]
  rw [quoteWord, hbody]
  simp [msMarks]

lemma length_plain_iff {arg : List TCHAR} :
    (arg.takeWhile (· ∉ special)).length = arg.length ↔ ¬ HasSpecial arg := by
  have htake := List.takeWhile_prefix (l := arg) (fun c => decide (c ∉ special))
  rw [show (arg.takeWhile (· ∉ special)).length = arg.length ↔ arg.takeWhile (· ∉ special) = arg
    from ⟨htake.eq_of_length, congrArg List.length⟩, List.takeWhile_eq_self_iff]
  simp [HasSpecial]

lemma appendArg_special {arg : List TCHAR} (h : HasSpecial arg) (args : Args) :
    appendArg args arg = quoteArg args arg := by
  rw [appendArg, if_neg fun hlen => length_plain_iff.mp hlen h]

lemma appendArg_encode (args : Args) (arg : List TCHAR) :
    ∃ max, appendArg args arg = some ⟨args.text ++ encode arg, max⟩ := by
  by_cases h : HasSpecial arg
  · rw [appendArg_special h, encode, if_pos h]
    exact quoteArg_quoteWord args arg
  · rw [appendArg, if_pos (length_plain_iff.mpr h), encode, if_neg h]
    exact strResize_storeAll args arg

lemma argvLoop_commandTail (argv : List (List TCHAR)) (args : Args) :
    ∃ max, argvLoop false argv args = some ⟨args.text ++ commandTail argv, max⟩ := by
  induction argv generalizing args with
  | nil => exact ⟨args.max, by rw [argvLoop, commandTail, List.flatMap_nil, List.append_nil]⟩
  | cons arg argv ih =>
    obtain ⟨max, hspace⟩ := strResize_store args 0x20
    obtain ⟨max₁, harg⟩ := appendArg_encode ⟨args.text ++ [0x20], max⟩ arg
    obtain ⟨max₂, hrest⟩ := ih ⟨args.text ++ [0x20] ++ encode arg, max₁⟩
    refine ⟨max₂, ?_⟩
    simp only [argvLoop, if_pos, hspace, harg, bind, Option.bind_some]
    rw [hrest]
    simp [commandTail]

lemma winArgvBuild_cons (prog : List TCHAR) (argv : List (List TCHAR)) :
    winArgvBuild (prog :: argv) = some (encode prog ++ commandTail argv) := by
  obtain ⟨max, hprog⟩ := appendArg_encode ⟨[], 1024⟩ prog
  obtain ⟨max₁, hrest⟩ := argvLoop_commandTail argv ⟨[] ++ encode prog, max⟩
  simp only [winArgvBuild, argvLoop, hprog, bind, Option.bind_some, if_neg, reduceCtorEq,
    not_false_eq_true]
  rw [hrest]
  rfl

lemma commandTail_cons (arg : List TCHAR) (argv : List (List TCHAR)) :
    commandTail (arg :: argv) = 0x20 :: (encode arg ++ commandTail argv) := rfl

lemma commandTail_separated (argv : List (List TCHAR)) : Separated msMarks (commandTail argv) := by
  cases argv with
  | nil => exact .inl rfl
  | cons arg argv => exact .inr ⟨0x20, _, rfl, by decide⟩

lemma not_blank {arg : List TCHAR} (h : ¬ HasSpecial arg) :
    ∀ c ∈ arg, msMarks.isBlank c = false := by
  intro c hc
  by_contra hb
  refine h ⟨c, hc, ?_⟩
  simp only [msMarks, decide_eq_false_iff_not, not_not] at hb
  rcases hb with rfl | rfl <;> decide

def Kept (arg : List TCHAR) : Prop := arg ≠ [] ∧ (quote ∈ arg → HasSpecial arg)

lemma not_kept {arg : List TCHAR} (h : ¬ Kept arg) : arg = [] ∨ quote ∈ arg ∧ ¬ HasSpecial arg := by
  by_cases harg : arg = []
  · exact .inl harg
  · right
    simpa [Kept, harg] using h

lemma parseArgs_empty (argv : List (List TCHAR)) :
    parseArgs msMarks (commandTail ([] :: argv)) = parseArgs msMarks (commandTail argv) := by
  rw [commandTail_cons, parseArgs_blank (by decide), encode, if_neg (by decide), List.nil_append]

lemma parseArgs_word {arg : List TCHAR} (harg : arg ≠ []) (argv : List (List TCHAR)) :
    parseArgs msMarks (commandTail (arg :: argv)) =
      (readArg msMarks false 0 (encode arg ++ commandTail argv)).1 ::
        parseArgs msMarks (readArg msMarks false 0 (encode arg ++ commandTail argv)).2 := by
  have hstart : ∃ c s, encode arg ++ commandTail argv = c :: s ∧ msMarks.isBlank c = false := by
    by_cases h : HasSpecial arg
    · exact ⟨quote, _, by rw [encode, if_pos h]; rfl, by decide⟩
    · obtain ⟨c, s, rfl⟩ := List.exists_cons_of_ne_nil harg
      exact ⟨c, s ++ commandTail argv, by rw [encode, if_neg h]; rfl,
        not_blank h c List.mem_cons_self⟩
  obtain ⟨c, s, hcons, hc⟩ := hstart
  rw [commandTail_cons, parseArgs_blank (by decide), hcons, parseArgs_cons hc]

lemma parseArgs_kept {arg : List TCHAR} (h : Kept arg) (argv : List (List TCHAR)) :
    parseArgs msMarks (commandTail (arg :: argv)) = arg :: parseArgs msMarks (commandTail argv) := by
  have hread : readArg msMarks false 0 (encode arg ++ commandTail argv) =
      (arg, commandTail argv) := by
    by_cases hs : HasSpecial arg
    · rw [encode, if_pos hs, readArg_quoteWord arg (commandTail_separated argv)]
    · rw [encode, if_neg hs, readArg_clean 0 (not_blank hs) (fun hq => hs (h.2 hq))
        (commandTail_separated argv)]
      rfl
  rw [parseArgs_word h.1, hread]

/-- An argument copied with its quotes is read as something shorter, unless what the quotes hold
goes on over the blank that should end it. -/
lemma parseArgs_quoted {arg : List TCHAR} (hs : ¬ HasSpecial arg) (hq : quote ∈ arg)
    (argv : List (List TCHAR)) :
    ∃ word rest, parseArgs msMarks (commandTail (arg :: argv)) = word :: rest ∧
      (HasSpecial word ∨
        word.length < arg.length ∧ rest = parseArgs msMarks (commandTail argv)) := by
  obtain ⟨w, inQuotes, k, hread, _, hlt⟩ := readArg_word false 0 (not_blank hs)
  have hlen := hlt hq
  rw [parseArgs_word (List.ne_nil_of_mem hq), encode, if_neg hs, hread]
  refine ⟨_, _, rfl, ?_⟩
  cases inQuotes with
  | false =>
    rw [readArg_separated k (commandTail_separated argv)]
    refine .inr ⟨?_, rfl⟩
    rw [prepend, List.length_append, List.length_replicate]
    exact hlen
  | true =>
    cases argv with
    | nil =>
      refine .inr ⟨?_, rfl⟩
      rw [commandTail, List.flatMap_nil, readArg, prepend, List.length_append,
        List.length_replicate]
      exact hlen
    | cons next argv =>
      refine .inl ⟨0x20, ?_, by decide⟩
      rw [commandTail_cons, readArg, if_neg (by decide), if_neg (by decide), if_neg (by decide)]
      simp [prepend]

lemma parseArgs_no_extra (argv ys : List (List TCHAR)) (hne : ys ≠ [])
    (hys : ∀ y ∈ ys, ¬ HasSpecial y) : parseArgs msMarks (commandTail argv) ≠ ys ++ argv := by
  induction argv generalizing ys with
  | nil =>
    rw [commandTail, List.flatMap_nil, parseArgs_nil, List.append_nil]
    exact Ne.symm hne
  | cons arg argv ih =>
    obtain ⟨y, ys, rfl⟩ := List.exists_cons_of_ne_nil hne
    have hy := hys y List.mem_cons_self
    have hshift : ∀ hs : ¬ HasSpecial arg,
        parseArgs msMarks (commandTail argv) ≠ ys ++ arg :: argv := by
      intro hs heq
      refine ih (ys ++ [arg]) (by simp) ?_ (by simpa using heq)
      intro z hz
      rcases List.mem_append.mp hz with hz | hz
      · exact hys z (List.mem_cons_of_mem y hz)
      · exact List.mem_singleton.mp hz ▸ hs
    intro heq
    by_cases hk : Kept arg
    · rw [parseArgs_kept hk] at heq
      obtain ⟨rfl, hrest⟩ := List.cons.inj heq
      exact hshift hy hrest
    · rcases not_kept hk with rfl | ⟨hq, hs⟩
      · rw [parseArgs_empty] at heq
        refine ih (y :: ys ++ [[]]) (by simp) ?_ (by simpa using heq)
        intro z hz
        rcases List.mem_append.mp hz with hz | hz
        · exact hys z hz
        · exact List.mem_singleton.mp hz ▸ by decide
      · obtain ⟨word, rest, hparse, hword⟩ := parseArgs_quoted hs hq argv
        rw [hparse] at heq
        obtain ⟨rfl, rfl⟩ := List.cons.inj heq
        rcases hword with hw | ⟨_, hrest⟩
        · exact hy hw
        · exact hshift hs hrest.symm

lemma parseArgs_commandTail (argv : List (List TCHAR)) :
    parseArgs msMarks (commandTail argv) = argv ↔ ∀ arg ∈ argv, Kept arg := by
  induction argv with
  | nil => simp [commandTail, parseArgs_nil]
  | cons arg argv ih =>
    rw [List.forall_mem_cons, ← ih]
    by_cases hk : Kept arg
    · simp [parseArgs_kept hk, hk]
    · refine iff_of_false (fun heq => ?_) fun h => hk h.1
      rcases not_kept hk with rfl | ⟨hq, hs⟩
      · rw [parseArgs_empty] at heq
        exact parseArgs_no_extra argv [[]] (by simp) (by decide) heq
      · obtain ⟨word, rest, hparse, hword⟩ := parseArgs_quoted hs hq argv
        rw [hparse] at heq
        obtain ⟨rfl, rfl⟩ := List.cons.inj heq
        rcases hword with hw | ⟨hlt, _⟩
        · exact hs hw
        · exact lt_irrefl _ hlt

lemma readProgram_encode {prog : List TCHAR} (hq : quote ∉ prog) (argv : List (List TCHAR)) :
    readProgram msMarks (encode prog ++ commandTail argv) =
      (if HasSpecial prog then escape msMarks 0 prog else prog, commandTail argv) := by
  by_cases hs : HasSpecial prog
  · rw [encode, if_pos hs, if_pos hs, quoteWord, List.cons_append, List.append_assoc]
    exact readProgram_quoted (fun h => hq (quote_mem_escape h)) _
  · rw [encode, if_neg hs, if_neg hs]
    exact readProgram_clean (not_blank hs) hq (commandTail_separated argv)

/-- The arguments come back: the program's name does not end in a backslash that gets doubled, and
no other argument is empty or copied with its quotes. -/
def Undone : List (List TCHAR) → Prop
  | [] => False
  | prog :: argv =>
    (HasSpecial prog → prog.getLast? ≠ some backslash) ∧
      ∀ arg ∈ argv, arg ≠ [] ∧ (quote ∈ arg → HasSpecial arg)

theorem winArgvBuild_undone (argv : List (List TCHAR)) (hprog : ∀ prog ∈ argv.head?, quote ∉ prog) :
    (∃ text, winArgvBuild argv = some text ∧ parseCommandLine msMarks text = argv) ↔
      Undone argv := by
  cases argv with
  | nil => simp [Undone, parseCommandLine]
  | cons prog argv =>
    have hq : quote ∉ prog := hprog prog rfl
    have hname : (if HasSpecial prog then escape msMarks 0 prog else prog) = prog ↔
        (HasSpecial prog → prog.getLast? ≠ some backslash) := by
      by_cases hs : HasSpecial prog
      · rw [if_pos hs, escape_eq_self hq]
        simp [hs, msMarks]
      · simp [hs]
    rw [winArgvBuild_cons]
    simp only [Option.some.injEq, exists_eq_left', parseCommandLine, readProgram_encode hq,
      List.cons.injEq, hname, parseArgs_commandTail]
    rfl

theorem winArgvBuild_loses_quotes :
    ∃ text, winArgvBuild [tchars "mwccarm", tchars "-DV=\"1\""] = some text ∧
      parseCommandLine msMarks text = [tchars "mwccarm", tchars "-DV=1"] ∧
      [tchars "mwccarm", tchars "-DV=1"] ≠ [tchars "mwccarm", tchars "-DV=\"1\""] :=
  ⟨tchars "mwccarm -DV=\"1\"", by decide +kernel, by decide +kernel, by decide +kernel⟩

theorem winArgvBuild_undone_mixed :
    ∃ text, winArgvBuild [tchars "C:\\my tools\\mwccarm", tchars "a \\\"b\\", tchars "c\\"] =
        some text ∧
      parseCommandLine msMarks text =
        [tchars "C:\\my tools\\mwccarm", tchars "a \\\"b\\", tchars "c\\"] :=
  (winArgvBuild_undone _ (by decide +kernel)).mpr (by
    refine ⟨fun _ => by decide +kernel, ?_⟩
    decide +kernel)

end Metroskrew.Wrap
