import Mathlib.Data.List.Basic
import Mathlib.Tactic
import Metroskrew.Wrap.WinArgv

/-! `parse_args`: the wrapper's own options are taken out of the argument list and the rest is
forwarded. The list is read from the left, an option with a value together with the argument after
it; the forwarded list reads the same way again. -/

namespace Metroskrew.Wrap.ParseArgs

open Metroskrew.Wrap

abbrev Arg := List TCHAR

inductive Libarch where
  | v4 | v4t | v5 | v5t
  deriving Repr, DecidableEq

/-- `struct args` -/
structure WrapArgs where
  wrapLibarch : Libarch := .v5
  wrapDbg : Bool := false
  wrapVer : Option Arg := none
  wrapSdk : Option Arg := none
  wrapLib : Option Arg := none
  wrapHack01 : Option Arg := none
  wrapNoipa : Bool := false
  deriving Repr, DecidableEq

/-- The texts `argv[0]` is compared with. -/
inductive Opt where
  | proc | thumb | nothumb | dbg | ver | sdk | lib | hack01 | noipa
  deriving Repr, DecidableEq

def Opt.text : Opt → Arg
  | .proc => tchars "-proc"
  | .thumb => tchars "-thumb"
  | .nothumb => tchars "-nothumb"
  | .dbg => tchars "-wrap:dbg"
  | .ver => tchars "-wrap:ver"
  | .sdk => tchars "-wrap:sdk"
  | .lib => tchars "-wrap:lib"
  | .hack01 => tchars "-wrap:hack01"
  | .noipa => tchars "-wrap:noipa"

structure Parse where
  args : WrapArgs := {}
  thumb : Bool := false
  deriving Repr, DecidableEq

structure Pass where
  parse : Parse
  skip : ℕ
  copy : ℕ
  deriving Repr, DecidableEq

def procLibarch (value : Arg) (libarch : Libarch) : Libarch :=
  if value = tchars "arm7tdmi" ∨ value = tchars "arm4T" then .v4
  else if value = tchars "arm946e" ∨ value = tchars "arm5TE" then .v5
  else libarch

/-- The chain of comparisons, for `argv[0] = arg` and `argv + 1 = rest`. -/
def parseOne (arg : Arg) (rest : List Arg) (s : Parse) : Pass :=
  let argc := rest.length + 1
  let value := rest.headD []
  if arg = Opt.proc.text ∧ 2 ≤ argc then
    ⟨{ s with args.wrapLibarch := procLibarch value s.args.wrapLibarch }, 0, 2⟩
  else if arg = Opt.thumb.text then ⟨{ s with thumb := true }, 0, 1⟩
  else if arg = Opt.nothumb.text then ⟨{ s with thumb := false }, 0, 1⟩
  else if arg = Opt.dbg.text then ⟨{ s with args.wrapDbg := true }, 1, 0⟩
  else if arg = Opt.ver.text ∧ 2 ≤ argc then ⟨{ s with args.wrapVer := some value }, 2, 0⟩
  else if arg = Opt.sdk.text ∧ 2 ≤ argc then ⟨{ s with args.wrapSdk := some value }, 2, 0⟩
  else if arg = Opt.lib.text ∧ 2 ≤ argc then ⟨{ s with args.wrapLib := some value }, 2, 0⟩
  else if arg = Opt.hack01.text ∧ 2 ≤ argc then ⟨{ s with args.wrapHack01 := some value }, 2, 0⟩
  else if arg = Opt.noipa.text then ⟨{ s with args.wrapNoipa := true }, 1, 0⟩
  else ⟨s, 0, 1⟩

/-- The slots of `new_argv` that are written, and how many it has. -/
structure NewArgv where
  slots : List (Option Arg)
  max : ℕ
  deriving Repr, DecidableEq

/-- `new_argv[new_argc++] = arg`; a store outside the allocation has no result. -/
def NewArgv.store (new : NewArgv) (arg : Option Arg) : Option NewArgv :=
  if new.slots.length < new.max then some { new with slots := new.slots ++ [arg] } else none

def NewArgv.copy (new : NewArgv) (args : List Arg) : Option NewArgv :=
  args.foldlM (fun new arg => new.store (some arg)) new

lemma parseOne_moves (arg : Arg) (rest : List Arg) (s : Parse) :
    0 < (parseOne arg rest s).skip + (parseOne arg rest s).copy := by
  unfold parseOne
  dsimp only
  split_ifs <;> simp

def parseLoop : List Arg → Parse → NewArgv → Option (Parse × NewArgv)
  | [], s, new => some (s, new)
  | arg :: rest, s, new => do
    let argv := (arg :: rest).drop (parseOne arg rest s).skip
    let new ← new.copy (argv.take (parseOne arg rest s).copy)
    parseLoop (argv.drop (parseOne arg rest s).copy) (parseOne arg rest s).parse new
termination_by argv => argv.length
decreasing_by
  have hmoves := parseOne_moves arg rest s
  simp only [List.length_drop, List.length_cons]
  omega

def thumbLibarch (thumb : Bool) (libarch : Libarch) : Libarch :=
  if thumb then
    let libarch := if libarch = .v4 then .v4t else libarch
    if libarch = .v5 then .v5t else libarch
  else libarch

def Parse.result (s : Parse) : WrapArgs :=
  { s.args with wrapLibarch := thumbLibarch s.thumb s.args.wrapLibarch }

/-- The result, `*out_argc` and the slots of `*out_argv`. -/
def parseArgs (argv : List Arg) : Option (WrapArgs × ℕ × List (Option Arg)) := do
  let new ← NewArgv.store ⟨[], argv.length + 2⟩ none
  let (s, new) ← parseLoop argv {} new
  let newArgc := new.slots.length
  let new ← new.store none
  some (s.result, newArgc, new.slots)

/-! ### The left-to-right reading -/

def valued : List Arg := [.proc, .ver, .sdk, .lib, .hack01].map Opt.text

/-- How many of the arguments after `arg` are its value, if there are any. -/
def values (arg : Arg) : ℕ := if arg ∈ valued then 1 else 0

/-- The argument list cut into arguments and options with their values. -/
def groups : List Arg → List (List Arg)
  | [] => []
  | arg :: rest => (arg :: rest.take (values arg)) :: groups (rest.drop (values arg))
termination_by argv => argv.length
decreasing_by
  rw [List.length_drop, List.length_cons]
  omega

/-- The groups that are options of the wrapper. -/
def removed : List Arg → Bool
  | [arg] => arg ∈ [Opt.dbg, .noipa].map Opt.text
  | [arg, _] => arg ∈ [Opt.ver, .sdk, .lib, .hack01].map Opt.text
  | _ => false

def Parse.read (s : Parse) : List Arg → Parse
  | [arg] =>
    if arg = Opt.thumb.text then { s with thumb := true }
    else if arg = Opt.nothumb.text then { s with thumb := false }
    else if arg = Opt.dbg.text then { s with args.wrapDbg := true }
    else if arg = Opt.noipa.text then { s with args.wrapNoipa := true }
    else s
  | [arg, value] =>
    if arg = Opt.proc.text then
      { s with args.wrapLibarch := procLibarch value s.args.wrapLibarch }
    else if arg = Opt.ver.text then { s with args.wrapVer := some value }
    else if arg = Opt.sdk.text then { s with args.wrapSdk := some value }
    else if arg = Opt.lib.text then { s with args.wrapLib := some value }
    else if arg = Opt.hack01.text then { s with args.wrapHack01 := some value }
    else s
  | _ => s

/-- What the tool sees of a parse: no option of the wrapper is set. -/
def Parse.forget (s : Parse) : Parse := { s with args := { wrapLibarch := s.args.wrapLibarch } }

def forwarded (argv : List Arg) : List Arg :=
  ((groups argv).filter fun group => !removed group).flatten

lemma text_injective : Function.Injective Opt.text := by
  intro a b h
  revert h
  cases a <;> cases b <;> decide +kernel

@[simp] lemma text_inj (a b : Opt) : a.text = b.text ↔ a = b := text_injective.eq_iff

lemma values_of_text (opt : Opt) :
    values opt.text = if opt ∈ [Opt.proc, .ver, .sdk, .lib, .hack01] then 1 else 0 := by
  simp only [values, valued, List.mem_map_of_injective text_injective]

lemma values_of_ne {arg : Arg} (h : ∀ opt : Opt, arg ≠ opt.text) : values arg = 0 := by
  simp [values, valued, h]

lemma option_or_not (arg : Arg) :
    (∃ opt : Opt, arg = opt.text) ∨ ∀ opt : Opt, arg ≠ opt.text := by
  by_cases h : ∃ opt : Opt, arg = opt.text
  · exact Or.inl h
  · exact Or.inr (not_exists.mp h)

/-- One pass takes the first group of the reading. -/
lemma parseOne_group (arg : Arg) (rest : List Arg) (s : Parse) :
    let group := arg :: rest.take (values arg)
    parseOne arg rest s =
      if removed group then ⟨s.read group, group.length, 0⟩
      else ⟨s.read group, 0, group.length⟩ := by
  rcases option_or_not arg with ⟨opt, rfl⟩ | hne
  · rw [values_of_text]
    cases opt <;> cases rest <;> simp [parseOne, removed, Parse.read]
  · rw [values_of_ne hne]
    simp [parseOne, removed, Parse.read, hne]

lemma flatten_groups (argv : List Arg) : (groups argv).flatten = argv := by
  fun_induction groups argv with
  | case1 => rfl
  | case2 arg rest ih =>
    rw [List.flatten_cons, ih, List.cons_append, List.take_append_drop]

lemma values_le (arg : Arg) : values arg ≤ 1 := by
  unfold values
  split_ifs <;> simp

/-- No new option arises when the groups between are taken out: a value stays next to its option,
and an option without one stays last. -/
lemma groups_forwarded (argv : List Arg) :
    groups (forwarded argv) = (groups argv).filter fun group => !removed group := by
  fun_induction groups argv with
  | case1 => simp [forwarded, groups]
  | case2 arg rest ih =>
    unfold forwarded at ih ⊢
    rw [groups]
    cases hremoved : removed (arg :: rest.take (values arg)) with
    | true =>
      rw [List.filter_cons_of_neg (by simp [hremoved])]
      exact ih
    | false =>
      rw [List.filter_cons_of_pos (by simp [hremoved]), List.flatten_cons, List.cons_append, groups]
      set kept := (groups (rest.drop (values arg))).filter fun group => !removed group
      have hvalue : (rest.take (values arg) ++ kept.flatten).take (values arg) =
          rest.take (values arg) ∧
          (rest.take (values arg) ++ kept.flatten).drop (values arg) = kept.flatten := by
        rcases Nat.lt_or_ge rest.length (values arg) with hlast | hnext
        · have hrest : rest = [] := List.length_eq_zero_iff.mp (by have := values_le arg; omega)
          have hkept : kept = [] := by simp [kept, hrest, groups]
          simp [hkept, hrest]
        · have hlen : (rest.take (values arg)).length = values arg := List.length_take_of_le hnext
          constructor
          · exact List.take_left' hlen
          · exact List.drop_left' hlen
      rw [hvalue.1, hvalue.2, ih]

/-- A group that is forwarded sets no option of the wrapper, and one that is not says nothing to
the tool. -/
lemma forget_read (s : Parse) (group : List Arg) :
    (s.read group).forget = if removed group then s.forget else s.forget.read group := by
  match group with
  | [] => rfl
  | [arg] =>
    rcases option_or_not arg with ⟨opt, rfl⟩ | hne
    · cases opt <;> simp [removed, Parse.read, Parse.forget]
    · simp [removed, Parse.read, hne]
  | [arg, value] =>
    rcases option_or_not arg with ⟨opt, rfl⟩ | hne
    · cases opt <;> simp [removed, Parse.read, Parse.forget]
    · simp [removed, Parse.read, hne]
  | _ :: _ :: _ :: _ => rfl

lemma forget_foldl_read (gs : List (List Arg)) (s : Parse) :
    (gs.foldl Parse.read s).forget =
      (gs.filter fun group => !removed group).foldl Parse.read s.forget := by
  induction gs generalizing s with
  | nil => rfl
  | cons group gs ih =>
    rw [List.foldl_cons, ih, forget_read]
    cases hremoved : removed group with
    | true => rw [if_pos rfl, List.filter_cons_of_neg (by simp [hremoved])]
    | false =>
      rw [if_neg (by simp), List.filter_cons_of_pos (by simp [hremoved]), List.foldl_cons]

lemma copy_of_le (args : List Arg) (new : NewArgv) (h : new.slots.length + args.length ≤ new.max) :
    new.copy args = some ⟨new.slots ++ args.map some, new.max⟩ := by
  have hstart : new = ⟨new.slots ++ ([] : List Arg).map some, new.max⟩ := by
    rw [List.map_nil, List.append_nil]
  rw [NewArgv.copy]
  conv_lhs => rw [hstart]
  apply foldlM_filling (fun (new : NewArgv) arg => new.store (some arg))
    (fun done => ⟨new.slots ++ done.map some, new.max⟩)
  intro done arg hdone
  have hlen := hdone.length_le
  rw [List.length_append, List.length_singleton] at hlen
  have hroom : (new.slots ++ done.map some).length < new.max := by
    rw [List.length_append, List.length_map]
    omega
  rw [NewArgv.store, if_pos hroom, List.append_assoc, List.map_append]
  rfl

lemma forwarded_cons (arg : Arg) (rest : List Arg) :
    forwarded (arg :: rest) =
      (if removed (arg :: rest.take (values arg)) then [] else arg :: rest.take (values arg)) ++
        forwarded (rest.drop (values arg)) := by
  rw [forwarded, groups, List.filter_cons]
  split_ifs <;> simp_all [forwarded]

/-- The loop reads the groups one after the other and stores what is forwarded. -/
lemma parseLoop_groups (argv : List Arg) (s : Parse) (new : NewArgv)
    (h : new.slots.length + argv.length ≤ new.max) :
    parseLoop argv s new =
      some ((groups argv).foldl Parse.read s, ⟨new.slots ++ (forwarded argv).map some, new.max⟩) := by
  fun_induction groups argv generalizing s new with
  | case1 => simp [parseLoop, forwarded, groups]
  | case2 arg rest ih =>
    have hsplit : arg :: rest = (arg :: rest.take (values arg)) ++ rest.drop (values arg) := by
      rw [List.cons_append, List.take_append_drop]
    rw [parseLoop, parseOne_group, forwarded_cons, List.foldl_cons]
    rw [hsplit] at h ⊢
    generalize arg :: rest.take (values arg) = group at h ⊢
    rw [List.length_append] at h
    cases removed group with
    | true =>
      have hnone : new.copy [] = some new := rfl
      rw [if_pos rfl, if_pos rfl]
      dsimp only
      rw [List.drop_left, List.take_zero, List.drop_zero, hnone, List.nil_append]
      exact ih _ _ (by omega)
    | false =>
      have hcopy := copy_of_le group new (by omega)
      rw [if_neg Bool.false_ne_true, if_neg Bool.false_ne_true]
      dsimp only
      rw [List.drop_zero, List.take_left, List.drop_left, hcopy, List.map_append,
        ← List.append_assoc]
      apply ih
      have hslots : (new.slots ++ group.map some).length = new.slots.length + group.length := by
        rw [List.length_append, List.length_map]
      change (new.slots ++ group.map some).length + (rest.drop (values arg)).length ≤ new.max
      omega

lemma forwarded_sublist (argv : List Arg) : (forwarded argv).Sublist argv := by
  conv_rhs => rw [← flatten_groups argv]
  exact List.Sublist.flatten List.filter_sublist

lemma parseArgs_eq (argv : List Arg) :
    parseArgs argv =
      some (((groups argv).foldl Parse.read {}).result, 1 + (forwarded argv).length,
        none :: (forwarded argv).map some ++ [none]) := by
  have hlen := (forwarded_sublist argv).length_le
  have hfirst : NewArgv.store ⟨[], argv.length + 2⟩ none = some ⟨[none], argv.length + 2⟩ :=
    if_pos (Nat.succ_pos _)
  have hloop := parseLoop_groups argv {} ⟨[none], argv.length + 2⟩
    (show 1 + argv.length ≤ argv.length + 2 by omega)
  have hcount : ([none] ++ (forwarded argv).map some).length = 1 + (forwarded argv).length := by
    rw [List.length_append, List.length_map, List.length_singleton]
  have hlast : NewArgv.store ⟨[none] ++ (forwarded argv).map some, argv.length + 2⟩ none =
      some ⟨none :: (forwarded argv).map some ++ [none], argv.length + 2⟩ := by
    rw [NewArgv.store, if_pos (by dsimp only; omega)]
    rfl
  rw [parseArgs, hfirst, Option.bind_eq_bind, Option.bind_some, hloop, Option.bind_eq_bind,
    Option.bind_some]
  dsimp only
  rw [hlast, hcount, Option.bind_some]

/-- The forwarded arguments are the input's, in order, without the options of the wrapper that the
reading from the left finds, and `parse_args` forwards them again as they are: no option of the
wrapper is left, and the libarch is the same. -/
theorem parseArgs_forwards (argv : List Arg) :
    ∃ (args : WrapArgs) (F : List Arg),
      parseArgs argv = some (args, 1 + F.length, none :: F.map some ++ [none]) ∧
      F.Sublist argv ∧
      (groups argv).flatten = argv ∧
      F = ((groups argv).filter fun group => !removed group).flatten ∧
      1 + F.length < argv.length + 2 ∧
      parseArgs F =
        some ({ wrapLibarch := args.wrapLibarch }, 1 + F.length, none :: F.map some ++ [none]) := by
  have hsub := forwarded_sublist argv
  have hlen := hsub.length_le
  refine ⟨_, forwarded argv, parseArgs_eq argv, hsub, flatten_groups argv, rfl, by omega, ?_⟩
  have hagain : forwarded (forwarded argv) = forwarded argv := by
    rw [forwarded, groups_forwarded, List.filter_filter, forwarded]
    simp only [Bool.and_self]
  have hread : (groups (forwarded argv)).foldl Parse.read {} =
      ((groups argv).foldl Parse.read {}).forget := by
    rw [forget_foldl_read, groups_forwarded]
    rfl
  rw [parseArgs_eq, hagain, hread]
  rfl

end Metroskrew.Wrap.ParseArgs
