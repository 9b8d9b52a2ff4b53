import Mathlib.Data.List.Basic
import Mathlib.Tactic

/-! `win_argv_build`: the command line for a list of arguments, in a buffer that grows as needed. A
store outside the buffer has no result. -/

namespace Metroskrew.Wrap

abbrev TCHAR := UInt16

def tchars (s : String) : List TCHAR := s.toList.map fun c => c.toNat.toUInt16

/-- What is written of `args`, and `args_max`. -/
structure Args where
  text : List TCHAR
  max : ℕ
  deriving Repr, DecidableEq

def strResizeMax (max req : ℕ) : ℕ := if max < req then strResizeMax (max + 1024) req else max
termination_by req - max
decreasing_by omega

/-- `str_resize(&args, &args_max, args_pos + n)` -/
def Args.strResize (args : Args) (n : ℕ) : Args :=
  { args with max := strResizeMax args.max (args.text.length + n) }

def Args.store (args : Args) (c : TCHAR) : Option Args :=
  if args.text.length < args.max then some { args with text := args.text ++ [c] } else none

def Args.storeAll (args : Args) (s : List TCHAR) : Option Args := s.foldlM Args.store args

def special : List TCHAR := tchars " \t\n\r"

def quote : TCHAR := 0x22

def backslash : TCHAR := 0x5c

/-- What the quoting loop does about backslashes when it comes to `c`. -/
def escapeBefore (c : TCHAR) (backslashes : ℕ) (args : Args) : Option (Args × ℕ) :=
  if c = backslash then some (args, backslashes + 1)
  else if c = quote then do
    let backslashes := backslashes + 1
    let args ← (args.strResize backslashes).storeAll (List.replicate backslashes backslash)
    some (args, 0)
  else some (args, 0)

/-- The loop over the characters of a quoted argument; it leaves the number of backslashes at the
end. -/
def quoteLoop : List TCHAR → ℕ → Args → Option (Args × ℕ)
  | [], backslashes, args => some (args, backslashes)
  | c :: arg, backslashes, args => do
    let (args, backslashes) ← escapeBefore c backslashes args
    let args ← (args.strResize 1).store c
    quoteLoop arg backslashes args

def escapeFinal (backslashes : ℕ) (args : Args) : Option Args :=
  if backslashes ≠ 0 then
    (args.strResize backslashes).storeAll (List.replicate backslashes backslash)
  else some args

def quoteArg (args : Args) (arg : List TCHAR) : Option Args := do
  let args ← (args.strResize 1).store quote
  let (args, backslashes) ← quoteLoop arg 0 args
  let args ← escapeFinal backslashes args
  (args.strResize 1).store quote

def appendArg (args : Args) (arg : List TCHAR) : Option Args :=
  if (arg.takeWhile (· ∉ special)).length = arg.length then
    (args.strResize arg.length).storeAll arg
  else quoteArg args arg

def argvLoop : Bool → List (List TCHAR) → Args → Option Args
  | _, [], args => some args
  | first, arg :: argv, args => do
    let args ← if first = false then (args.strResize 1).store 0x20 else some args
    let args ← appendArg args arg
    argvLoop false argv args

def winArgvBuild (argv : List (List TCHAR)) : Option (List TCHAR) := do
  let args ← argvLoop true argv { text := [], max := 1024 }
  some args.text

lemma le_strResizeMax (max req : ℕ) : req ≤ strResizeMax max req := by
  fun_induction strResizeMax max req with
  | case1 max hlt ih => exact ih
  | case2 max hge => exact Nat.le_of_not_lt hge

lemma foldlM_filling {σ α : Type} (f : σ → α → Option σ) (state : List α → σ) (xs : List α)
    (h : ∀ done c, done ++ [c] <+: xs → f (state done) c = some (state (done ++ [c]))) :
    xs.foldlM f (state []) = some (state xs) := by
  induction xs using List.reverseRecOn with
  | nil => rfl
  | append_singleton xs c ih =>
    have hdone : xs.foldlM f (state []) = some (state xs) :=
      ih fun done d hd => h done d (hd.trans (List.prefix_append xs [c]))
    rw [List.foldlM_append, hdone, Option.bind_eq_bind, Option.bind_some, List.foldlM_cons,
      h xs c (List.prefix_refl _)]
    rfl

lemma storeAll_of_le (s : List TCHAR) (args : Args) (h : args.text.length + s.length ≤ args.max) :
    args.storeAll s = some ⟨args.text ++ s, args.max⟩ := by
  have hstart : args = ⟨args.text ++ [], args.max⟩ := by rw [List.append_nil]
  rw [Args.storeAll]
  conv_lhs => rw [hstart]
  apply foldlM_filling Args.store (fun done => ⟨args.text ++ done, args.max⟩)
  intro done c hdone
  have hlen := hdone.length_le
  rw [List.length_append, List.length_singleton] at hlen
  have hroom : (args.text ++ done).length < args.max := by
    rw [List.length_append]
    omega
  rw [Args.store, if_pos hroom, List.append_assoc]

lemma strResize_storeAll (args : Args) (s : List TCHAR) :
    ∃ max, (args.strResize s.length).storeAll s = some ⟨args.text ++ s, max⟩ :=
  ⟨_, storeAll_of_le s _ (le_strResizeMax _ _)⟩

lemma strResize_store (args : Args) (c : TCHAR) :
    ∃ max, (args.strResize 1).store c = some ⟨args.text ++ [c], max⟩ :=
  ⟨_, if_pos (Nat.lt_of_succ_le (le_strResizeMax _ _))⟩

end Metroskrew.Wrap
