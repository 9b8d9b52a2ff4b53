import Metroskrew.Wrap.ParseArgs

/-! `remove_ipa_arguments`: the arguments are moved down in the array they are read from. -/

namespace Metroskrew.Wrap.RemoveIpa

open Metroskrew.Wrap.ParseArgs

def ipa : Arg := tchars "-ipa"

/-- The loop from `i` on; an access outside the array has no result. -/
def removeIpaLoop (argc i newArgc : ℕ) (argv : List (Option Arg)) :
    Option (ℕ × List (Option Arg)) :=
  if i < argc then
    match argv[i]? with
    | none => none
    | some arg =>
      if arg = some ipa ∧ i + 1 < argc then removeIpaLoop argc (i + 2) newArgc argv
      else if newArgc < argv.length then
        removeIpaLoop argc (i + 1) (newArgc + 1) (argv.set newArgc arg)
      else none
  else some (newArgc, argv)
termination_by argc - i

/-- `*argc` and the array afterwards. -/
def removeIpaArguments (argc : ℕ) (argv : List (Option Arg)) : Option (ℕ × List (Option Arg)) := do
  let (newArgc, argv) ← removeIpaLoop argc 0 0 argv
  if newArgc < argv.length then some (newArgc, argv.set newArgc none) else none

section Pairs

variable {α : Type*} [DecidableEq α] (mark : α)

/-- Every mark and what follows it is taken out, but not a mark at the end. -/
def dropPairs : List α → List α
  | [] => []
  | [x] => [x]
  | x :: y :: xs => if x = mark then dropPairs xs else x :: dropPairs (y :: xs)

variable {mark}

lemma dropPairs_cons_of_ne {x : α} (h : x ≠ mark) (xs : List α) :
    dropPairs mark (x :: xs) = x :: dropPairs mark xs := by
  cases xs with
  | nil => rfl
  | cons y xs => rw [dropPairs, if_neg h]

lemma dropPairs_sublist (xs : List α) : (dropPairs mark xs).Sublist xs := by
  induction xs using dropPairs.induct mark with
  | case1 => exact List.Sublist.refl []
  | case2 x => exact List.Sublist.refl [x]
  | case3 y xs ih =>
    rw [dropPairs, if_pos rfl]
    exact ih.trans ((List.sublist_cons_self y xs).trans (List.sublist_cons_self _ _))
  | case4 x y xs hx ih =>
    rw [dropPairs, if_neg hx]
    exact ih.cons_cons x

/-- A mark that is left has nothing after it. -/
lemma dropPairs_marks (xs : List α) : mark ∉ (dropPairs mark xs).dropLast := by
  induction xs using dropPairs.induct mark with
  | case1 => exact List.not_mem_nil
  | case2 x => exact List.not_mem_nil
  | case3 y xs ih => rwa [dropPairs, if_pos rfl]
  | case4 x y xs hx ih =>
    rw [dropPairs, if_neg hx]
    cases hrest : dropPairs mark (y :: xs) with
    | nil => exact List.not_mem_nil
    | cons z zs =>
      rw [hrest] at ih
      rw [List.dropLast_cons_cons, List.mem_cons, not_or]
      exact ⟨Ne.symm hx, ih⟩

lemma dropPairs_map {β : Type*} [DecidableEq β] {f : α → β} (hf : Function.Injective f)
    (xs : List α) : dropPairs (f mark) (xs.map f) = (dropPairs mark xs).map f := by
  induction xs using dropPairs.induct mark with
  | case1 => rfl
  | case2 x => rfl
  | case3 y xs ih =>
    rw [List.map_cons, List.map_cons, dropPairs, if_pos rfl, ih, dropPairs, if_pos rfl]
  | case4 x y xs hx ih =>
    rw [List.map_cons, List.map_cons, dropPairs, if_neg (hf.ne hx), ← List.map_cons, ih, dropPairs,
      if_neg hx, List.map_cons]

end Pairs

/-- A store at the end of the front fills the gap, or keeps it where it moves on. -/
lemma set_front (front gap todo : List (Option Arg)) (arg : Option Arg) :
    ∃ gap', gap'.length = gap.length ∧
      (front ++ gap ++ arg :: todo).set front.length arg = front ++ [arg] ++ gap' ++ todo := by
  cases gap with
  | nil => exact ⟨[], rfl, by simp⟩
  | cons g gap => exact ⟨gap ++ [arg], by simp, by simp⟩

lemma read_todo (front gap todo : List (Option Arg)) (arg : Option Arg) :
    (front ++ gap ++ arg :: todo)[front.length + gap.length]? = some arg := by
  rw [← List.length_append, List.getElem?_append_right le_rfl, Nat.sub_self, List.getElem?_cons_zero]

/-- One argument moved down to the front. -/
lemma removeIpaLoop_keep (argc : ℕ) (front gap todo : List (Option Arg)) (arg : Option Arg)
    (hlt : front.length + gap.length < argc)
    (hkeep : ¬ (arg = some ipa ∧ front.length + gap.length + 1 < argc)) :
    ∃ gap', gap'.length = gap.length ∧
      removeIpaLoop argc (front.length + gap.length) front.length (front ++ gap ++ arg :: todo) =
        removeIpaLoop argc ((front ++ [arg]).length + gap'.length) (front ++ [arg]).length
          (front ++ [arg] ++ gap' ++ todo) := by
  obtain ⟨gap', hlen, hset⟩ := set_front front gap todo arg
  refine ⟨gap', hlen, ?_⟩
  have hroom : front.length < (front ++ gap ++ arg :: todo).length := by
    rw [List.length_append, List.length_append, List.length_cons]
    omega
  rw [removeIpaLoop, if_pos hlt, read_todo]
  dsimp only
  rw [if_neg hkeep, if_pos hroom, hset, List.length_append, List.length_singleton, hlen,
    Nat.add_right_comm]

/-- The front is what is kept so far, and the gap what was passed over. -/
lemma removeIpaLoop_eq (argc : ℕ) (todo front gap rest : List (Option Arg))
    (hargc : argc = front.length + gap.length + todo.length) :
    ∃ gap', (dropPairs (some ipa) todo).length + gap'.length = gap.length + todo.length ∧
      removeIpaLoop argc (front.length + gap.length) front.length (front ++ gap ++ (todo ++ rest)) =
        some (front.length + (dropPairs (some ipa) todo).length,
          front ++ dropPairs (some ipa) todo ++ gap' ++ rest) := by
  induction todo using dropPairs.induct (some ipa) generalizing front gap with
  | case1 =>
    refine ⟨gap, by simp [dropPairs], ?_⟩
    rw [removeIpaLoop, if_neg (by simp at hargc; omega)]
    simp [dropPairs]
  | case2 arg =>
    simp only [List.length_singleton] at hargc
    obtain ⟨gap', hlen, hkeep⟩ := removeIpaLoop_keep argc front gap rest arg (by omega) (by omega)
    refine ⟨gap', by simp [dropPairs, hlen, Nat.add_comm], ?_⟩
    rw [List.singleton_append, hkeep, removeIpaLoop,
      if_neg (by rw [List.length_append, List.length_singleton]; omega)]
    simp [dropPairs]
  | case3 next todo ih =>
    simp only [List.length_cons] at hargc
    obtain ⟨gap', hlen, hloop⟩ := ih front (gap ++ [some ipa, next]) (by simp; omega)
    refine ⟨gap', ?_, ?_⟩
    · rw [dropPairs, if_pos rfl, hlen]
      simp
      omega
    · rw [dropPairs, if_pos rfl, ← hloop, List.cons_append, removeIpaLoop, if_pos (by omega),
        read_todo]
      dsimp only
      rw [if_pos ⟨rfl, by omega⟩]
      simp [Nat.add_assoc]
  | case4 arg next todo hipa ih =>
    simp only [List.length_cons] at hargc
    obtain ⟨gap₁, hlen₁, hkeep⟩ := removeIpaLoop_keep argc front gap (next :: todo ++ rest) arg (by omega)
      (fun h => hipa h.1)
    obtain ⟨gap', hlen, hloop⟩ := ih (front ++ [arg]) gap₁ (by simp; omega)
    refine ⟨gap', ?_, ?_⟩
    · rw [dropPairs, if_neg hipa, List.length_cons]
      simp only [List.length_cons] at hlen ⊢
      omega
    · rw [List.cons_append, hkeep, hloop, dropPairs, if_neg hipa]
      simp [Nat.add_assoc, Nat.add_comm]

/-- The array of `argc` arguments and a terminator stays one, with the arguments that are kept. -/
lemma removeIpaArguments_eq (args : List (Option Arg)) :
    ∃ after, (dropPairs (some ipa) args).length + after.length = args.length ∧
      removeIpaArguments args.length (args ++ [none]) =
        some ((dropPairs (some ipa) args).length, dropPairs (some ipa) args ++ none :: after) := by
  obtain ⟨gap, hlen, hloop⟩ := removeIpaLoop_eq args.length args [] [] [none] (by simp)
  simp only [List.length_nil, Nat.zero_add, List.nil_append, Nat.add_zero] at hlen hloop
  obtain ⟨gap', hlen', hset⟩ := set_front (dropPairs (some ipa) args) gap [] none
  refine ⟨gap', by rw [hlen', hlen], ?_⟩
  have hroom : (dropPairs (some ipa) args).length < (dropPairs (some ipa) args ++ gap ++ [none]).length := by
    rw [List.length_append, List.length_append, List.length_singleton]
    omega
  rw [removeIpaArguments, hloop]
  simp only [Option.bind_eq_bind, Option.bind_some]
  rw [if_pos hroom, hset, List.append_nil, List.append_assoc, List.singleton_append]

end Metroskrew.Wrap.RemoveIpa
