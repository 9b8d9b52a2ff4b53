import Metroskrew.Patch.RelpathNames

/-! Paths that differ in repeated separators only, and when `relpath` tells them apart. -/

namespace Metroskrew.Patch.Relpath

open Metroskrew.Library.PathResolution

/-- Every run of separators as one. -/
def squeeze : CString → CString
  | a :: b :: s => if a = 0x2f ∧ b = 0x2f then squeeze (b :: s) else a :: squeeze (b :: s)
  | s => s

/-- What stands behind the separators of an absolute path. -/
def parts (path : CString) : List CString := (path.splitOn 0x2f).tail

def denoted (cs : List CString) : List CString := cs.foldl (enter 0x2e) []

/-- After how many components, all of them those of `cwd`, the path has a repeated separator; `cwd`
goes on there. -/
def gap : List CString → List CString → Option ℕ
  | x :: cwd, y :: dst =>
    if y = [] ∧ dst ≠ [] then some 0 else if y = x then (gap cwd dst).map (· + 1) else none
  | _, _ => none

/-- The first component that is a proper beginning of the one of `cwd` at the same place stands for
that one, unless it is the last. -/
def completed : List CString → List CString → List CString
  | x :: cwd, y :: dst =>
    if y = x then x :: completed cwd dst
    else if dst ≠ [] ∧ y <+: x then x :: dst
    else y :: dst
  | _, dst => dst

/-- A squeezed path with the component of `cwd` that is next at the gap put in there. -/
def inserted (cwd dst : List CString) : Option ℕ → List CString
  | some e => cwd.take (e + 1) ++ dst.drop e
  | none => completed cwd dst

def squeezeParts : List CString → List CString
  | y :: z :: dst => if y = [] then squeezeParts (z :: dst) else y :: squeezeParts (z :: dst)
  | dst => dst

variable {cwd dst : List CString}

lemma completed_climb (cwd dst : List CString) :
    cwd.take (cwd.length - (climb cwd dst).1) ++ (climb cwd dst).2 = completed cwd dst := by
  fun_induction climb cwd dst with
  | case1 dst => simp [completed]
  | case2 x cwd => simp [completed]
  | case3 cwd y dst ih =>
    have hle := climb_le cwd dst
    rw [completed, if_pos rfl, List.length_cons, Nat.succ_sub hle, List.take_succ_cons, List.cons_append, ih]
  | case4 x cwd y dst hyx hslip =>
    rw [completed, if_neg hyx, if_pos hslip, List.length_cons, Nat.add_sub_cancel_left]
    rfl
  | case5 x cwd y dst hyx hslip =>
    rw [completed, if_neg hyx, if_neg hslip, Nat.sub_self]
    rfl

lemma squeezeParts_nil : squeezeParts dst = [] ↔ dst = [] := by
  fun_induction squeezeParts dst with
  | case1 z dst ih => simp [ih]
  | case2 y z dst hy ih => simp
  | case3 dst h => rfl

lemma squeezeParts_cons {y : CString} (hy : y ≠ []) (dst : List CString) :
    squeezeParts (y :: dst) = y :: squeezeParts dst := by
  cases dst with
  | nil => rfl
  | cons z dst => rw [squeezeParts, if_neg hy]

lemma filter_cons_eq {ys zs : List CString} (h : ys.filter (· ≠ []) = zs.filter (· ≠ [])) (x : CString) :
    (x :: ys).filter (· ≠ []) = (x :: zs).filter (· ≠ []) := by
  rw [List.filter_cons, List.filter_cons, h]

lemma squeezeParts_filter (dst : List CString) :
    (squeezeParts dst).filter (· ≠ []) = dst.filter (· ≠ []) := by
  fun_induction squeezeParts dst with
  | case1 z dst ih => simpa using ih
  | case2 y z dst hy ih => exact filter_cons_eq ih y
  | case3 dst h => rfl

/-- Where the gap is, is all that `relpath` sees of the repeated separators. -/
lemma completed_inserted (hcwd : ∀ c ∈ cwd, c ≠ []) (dst : List CString) :
    (completed cwd dst).filter (· ≠ []) =
      (inserted cwd (squeezeParts dst) (gap cwd dst)).filter (· ≠ []) := by
  fun_induction gap cwd dst with
  | case1 x cwd y dst hgap =>
    obtain ⟨rfl, hdst⟩ := hgap
    have hx : [] ≠ x := (hcwd x List.mem_cons_self).symm
    obtain ⟨z, dst, rfl⟩ := List.exists_cons_of_ne_nil hdst
    rw [completed, if_neg hx, if_pos ⟨hdst, List.nil_prefix⟩, inserted, squeezeParts, if_pos rfl]
    exact filter_cons_eq (squeezeParts_filter _).symm x
  | case2 cwd y dst hgap ih =>
    have hy := hcwd y List.mem_cons_self
    have ih := ih fun c hc => hcwd c (List.mem_cons_of_mem y hc)
    rw [completed, if_pos rfl, squeezeParts_cons hy]
    cases hrest : gap cwd dst with
    | none =>
      rw [hrest] at ih
      rw [Option.map_none, inserted, completed, if_pos rfl]
      exact filter_cons_eq ih y
    | some e =>
      rw [hrest] at ih
      rw [Option.map_some, inserted, List.take_succ_cons, List.drop_succ_cons]
      exact filter_cons_eq ih y
  | case3 x cwd y dst hgap hyx =>
    by_cases hy : y = []
    · obtain rfl : dst = [] := by
        by_contra hdst
        exact hgap ⟨hy, hdst⟩
      rfl
    · rw [inserted, squeezeParts_cons hy, completed, completed, if_neg hyx, if_neg hyx]
      simp only [ne_eq, squeezeParts_nil]
      split_ifs
      · exact filter_cons_eq (squeezeParts_filter dst).symm x
      · exact filter_cons_eq (squeezeParts_filter dst).symm y
  | case4 cwd dst h =>
    cases cwd with
    | nil => exact (squeezeParts_filter dst).symm
    | cons x cwd =>
      cases dst with
      | nil => rfl
      | cons y dst => exact absurd rfl (h x cwd y dst rfl)

lemma not_mem_splitOn {sep : UInt8} {s c : CString} (h : c ∈ s.splitOn sep) : sep ∉ c := by
  induction s generalizing c with
  | nil => simp_all
  | cons b s ih =>
    rw [List.splitOn_cons_eq_if_modifyHead] at h
    split_ifs at h with hb
    · rcases List.mem_cons.mp h with rfl | h
      · exact List.not_mem_nil
      · exact ih h
    · obtain ⟨c₀, cs, hsplit⟩ := List.exists_cons_of_ne_nil (List.splitOn_ne_nil sep s)
      rw [hsplit] at h ih
      rcases List.mem_cons.mp h with rfl | h
      · have hne : sep ≠ b := fun he => hb (by simp [he])
        simpa [hne] using ih List.mem_cons_self
      · exact ih (List.mem_cons_of_mem c₀ h)

lemma joined_parts {path : CString} (h : path.head? = some 0x2f) :
    joined 0x2f (parts path) = path ∧ parts path ≠ [] ∧ ∀ c ∈ parts path, (0x2f : UInt8) ∉ c := by
  obtain ⟨t, rfl⟩ : ∃ t, path = 0x2f :: t := by
    cases path with
    | nil => cases h
    | cons b t => exact ⟨t, by rw [Option.some.inj h]⟩
  have hparts : parts (0x2f :: t) = t.splitOn 0x2f := by
    have hsplit := List.splitOn_append_cons_self (a := (0x2f : UInt8)) [] t
    rw [List.nil_append] at hsplit
    rw [parts, hsplit]
    rfl
  rw [hparts]
  refine ⟨?_, List.splitOn_ne_nil _ _, fun c hc => not_mem_splitOn hc⟩
  obtain ⟨c, cs, hsplit⟩ := List.exists_cons_of_ne_nil (List.splitOn_ne_nil (0x2f : UInt8) t)
  have ht : [0x2f].intercalate (t.splitOn 0x2f) = t := List.intercalate_splitOn 0x2f
  rw [hsplit, intercalate_flatMap] at ht
  rw [hsplit, joined_cons, joined, ht]

lemma parts_joined {xs : List CString} (h : ∀ c ∈ xs, (0x2f : UInt8) ∉ c) :
    parts (joined 0x2f xs) = xs := by
  have hall : ∀ c ∈ [] :: xs, (0x2f : UInt8) ∉ c := by
    rw [List.forall_mem_cons]
    exact ⟨List.not_mem_nil, h⟩
  have hsplit := List.splitOn_intercalate (0x2f : UInt8) hall (List.cons_ne_nil [] xs)
  rw [intercalate_flatMap, List.nil_append] at hsplit
  rw [parts, joined, hsplit]
  rfl

lemma squeeze_of_ne {a : UInt8} (ha : a ≠ 0x2f) (s : CString) : squeeze (a :: s) = a :: squeeze s := by
  cases s with
  | nil => rfl
  | cons b s => rw [squeeze, if_neg fun h => ha h.1]

lemma squeeze_append {y : CString} (hy : (0x2f : UInt8) ∉ y) (t : CString) :
    squeeze (y ++ t) = y ++ squeeze t := by
  induction y with
  | nil => rfl
  | cons a y ih =>
    rw [List.mem_cons, not_or] at hy
    rw [List.cons_append, squeeze_of_ne (Ne.symm hy.1), ih hy.2, List.cons_append]

lemma squeeze_cons {y : CString} (hy : (0x2f : UInt8) ∉ y) (hne : y ≠ []) (t : CString) :
    squeeze (0x2f :: (y ++ t)) = 0x2f :: (y ++ squeeze t) := by
  obtain ⟨a, y, rfl⟩ := List.exists_cons_of_ne_nil hne
  have ha : a ≠ 0x2f := fun he => hy (he ▸ List.mem_cons_self)
  rw [← squeeze_append hy, List.cons_append, squeeze, if_neg fun h => ha h.2]

lemma squeeze_joined {xs : List CString} (h : ∀ c ∈ xs, (0x2f : UInt8) ∉ c) :
    squeeze (joined 0x2f xs) = joined 0x2f (squeezeParts xs) := by
  fun_induction squeezeParts xs with
  | case1 z xs ih =>
    rw [← ih fun c hc => h c (List.mem_cons_of_mem [] hc), joined_cons, joined_cons, List.nil_append,
      squeeze, if_pos ⟨rfl, rfl⟩]
  | case2 y z xs hy ih =>
    rw [joined_cons, squeeze_cons (h y List.mem_cons_self) hy,
      ih fun c hc => h c (List.mem_cons_of_mem y hc), joined_cons]
  | case3 xs hxs =>
    cases xs with
    | nil => rfl
    | cons y xs =>
      cases xs with
      | nil =>
        by_cases hy : y = []
        · subst hy
          rfl
        · rw [joined_cons, squeeze_cons (h y List.mem_cons_self) hy]
          rfl
      | cons z xs => exact absurd rfl (hxs y z xs)

lemma parts_squeeze {path : CString} (h : path.head? = some 0x2f) :
    parts (squeeze path) = squeezeParts (parts path) := by
  obtain ⟨hjoined, -, hsep⟩ := joined_parts h
  have hsqueezed : ∀ c ∈ squeezeParts (parts path), (0x2f : UInt8) ∉ c := by
    intro c hc
    by_cases hempty : c = []
    · simp [hempty]
    · have hmem : c ∈ (squeezeParts (parts path)).filter (· ≠ []) := by simp [hc, hempty]
      rw [squeezeParts_filter] at hmem
      exact hsep c (List.mem_of_mem_filter hmem)
  conv_lhs => rw [← hjoined, squeeze_joined hsep, parts_joined hsqueezed]

lemma denoted_congr {cs ds : List CString} (h : cs.filter (· ≠ []) = ds.filter (· ≠ [])) :
    denoted cs = denoted ds := by
  rw [denoted, denoted, ← foldl_enter_names, h, foldl_enter_names]

lemma climb_sep {cwd dst : List CString} (hdst : ∀ c ∈ dst, (0x2f : UInt8) ∉ c) :
    ∀ c ∈ shown (climb cwd dst).2, (0x2f : UInt8) ∉ c := by
  intro c hc
  rw [shown] at hc
  split_ifs at hc
  · cases hc
  · exact hdst c (climb_mem hc)

lemma foldl_shown (ys here : List CString) :
    (shown ys).foldl (enter 0x2e) here = ys.foldl (enter 0x2e) here := by
  rw [shown]
  split_ifs with hempty
  · subst hempty
    simp [enter]
  · rfl

lemma climb_root (dst : List CString) : denoted (climb [[]] dst).2 = denoted dst := by
  cases dst with
  | nil => rfl
  | cons y dst =>
    by_cases hy : y = []
    · subst hy
      rw [climb, if_pos rfl]
      exact denoted_congr (by simp [climb])
    · rw [climb, if_neg hy, if_neg fun h => hy (List.prefix_nil.mp h.2)]

/-- What `relpath` returns leads to what its reading of the path denotes. -/
lemma relpath_follow (cwd : AbsPath) {path : CString} (h : path.head? = some 0x2f) :
    ∃ rel, relpath cwd.text path = some rel ∧
      follow 0x2f 0x2e cwd.comps rel = denoted (completed cwd.comps (parts path)) := by
  obtain ⟨hjoined, hne, hsep⟩ := joined_parts h
  have hrel := relpath_climb cwd hsep hne
  rw [hjoined] at hrel
  refine ⟨_, hrel, ?_⟩
  rw [follow_relative (by decide) _ (climb_sep hsep), foldl_shown, steps]
  split_ifs with hroot
  · rw [hroot, List.take_nil]
    exact climb_root (parts path)
  · have htake : ∀ k, (cwd.comps.take k).foldl (enter 0x2e) [] = cwd.comps.take k := fun k =>
      foldl_enter_plain (fun c hc => cwd.plain c (List.mem_of_mem_take hc)) []
    rw [← completed_climb, denoted, List.foldl_append, htake]

lemma relpath_inserted (cwd : AbsPath) {path : CString} (h : path.head? = some 0x2f) :
    ∃ rel, relpath cwd.text path = some rel ∧ follow 0x2f 0x2e cwd.comps rel =
      denoted (inserted cwd.comps (parts (squeeze path)) (gap cwd.comps (parts path))) := by
  obtain ⟨rel, hrel, hfollow⟩ := relpath_follow cwd h
  refine ⟨rel, hrel, hfollow.trans ?_⟩
  rw [parts_squeeze h]
  exact denoted_congr (completed_inserted (fun c hc => (cwd.plain c hc).ne_nil) _)

/-- At which place `completed` puts in a component of `cwd`. -/
def slip : List CString → List CString → Option ℕ
  | x :: cwd, y :: dst =>
    if y = x then (slip cwd dst).map (· + 1) else if dst ≠ [] ∧ y <+: x then some 0 else none
  | _, _ => none

/-- From place `e` to place `e'` all components of `cwd` are the same, save those that a path `rest`
from behind them climbs over. -/
def Repeats (cwd : List CString) (e e' : ℕ) (rest : List CString) : Prop :=
  ∀ i, e < i → i + climbs 0x2e rest ≤ e' → cwd[i - 1]? = cwd[i]?

/-- A gap at `e` makes no difference to the squeezed path `dst`: what follows climbs over the root, or
a component that is only a beginning of the one of `cwd` is a dot, and `cwd` repeats itself up to it. -/
def Absorbed (cwd dst : List CString) (e : ℕ) : Prop :=
  match slip cwd dst with
  | none => e < climbs 0x2e (dst.drop e)
  | some s =>
    if dst[s]? = some [0x2e] then Repeats cwd e s (dst.drop (s + 1))
    else s < climbs 0x2e (dst.drop s) ∧ s < climbs 0x2e (dst.drop (s + 1))

/-- It makes no difference at which of the two places, if at any, the squeezed path has a gap. -/
def Harmless (cwd dst : List CString) : Option ℕ → Option ℕ → Prop
  | none, none => True
  | some e, none => Absorbed cwd dst e
  | none, some e => Absorbed cwd dst e
  | some e, some e' => Repeats cwd (min e e') (max e e') (dst.drop (max e e'))

lemma gap_bounds {e : ℕ} (h : gap cwd dst = some e) :
    e < cwd.length ∧ e ≤ (squeezeParts dst).length := by
  fun_induction gap cwd dst generalizing e with
  | case1 x cwd y dst hgap =>
    obtain rfl := Option.some.inj h
    simp
  | case2 cwd y dst hgap ih =>
    obtain ⟨k, hk, rfl⟩ := Option.map_eq_some_iff.mp h
    obtain ⟨hcwd, hdst⟩ := ih hk
    by_cases hy : y = []
    · obtain rfl : dst = [] := by
        by_contra hne
        exact hgap ⟨hy, hne⟩
      simp [gap] at hk
    · rw [squeezeParts_cons hy, List.length_cons, List.length_cons]
      omega
  | case3 x cwd y dst hgap hyx => cases h
  | case4 cwd dst h' => cases h

lemma gap_take (hcwd : ∀ c ∈ cwd, c ≠ []) {e : ℕ} (h : gap cwd dst = some e) :
    (squeezeParts dst).take e = cwd.take e := by
  fun_induction gap cwd dst generalizing e with
  | case1 x cwd y dst hgap =>
    obtain rfl := Option.some.inj h
    simp
  | case2 cwd y dst hgap ih =>
    obtain ⟨k, hk, rfl⟩ := Option.map_eq_some_iff.mp h
    rw [squeezeParts_cons (hcwd y List.mem_cons_self), List.take_succ_cons, List.take_succ_cons,
      ih (fun c hc => hcwd c (List.mem_cons_of_mem y hc)) hk]
  | case3 x cwd y dst hgap hyx => cases h
  | case4 cwd dst h' => cases h

lemma completed_of_slip_none (h : slip cwd dst = none) : completed cwd dst = dst := by
  fun_induction slip cwd dst with
  | case1 cwd y dst ih =>
    rw [completed, if_pos rfl, ih (Option.map_eq_none_iff.mp h)]
  | case2 x cwd y dst hyx hslip => cases h
  | case3 x cwd y dst hyx hslip => rw [completed, if_neg hyx, if_neg hslip]
  | case4 cwd dst h' =>
    cases cwd with
    | nil => rfl
    | cons x cwd =>
      cases dst with
      | nil => rfl
      | cons y dst => exact absurd rfl (h' x cwd y dst rfl)

/-- The paths agree up to the slip, where the component of `dst` is not the last. -/
structure SlipAt (cwd dst : List CString) (s : ℕ) (y : CString) : Prop where
  lt : s < cwd.length
  take : dst.take s = cwd.take s
  drop : dst.drop s = y :: dst.drop (s + 1)
  rest : dst.drop (s + 1) ≠ []
  ne : cwd[s]? ≠ some y
  completed : completed cwd dst = cwd.take (s + 1) ++ dst.drop (s + 1)

lemma slip_spec {s : ℕ} (h : slip cwd dst = some s) : ∃ y, SlipAt cwd dst s y := by
  fun_induction slip cwd dst generalizing s with
  | case1 cwd y dst ih =>
    obtain ⟨k, hk, rfl⟩ := Option.map_eq_some_iff.mp h
    obtain ⟨z, hz⟩ := ih hk
    refine ⟨z, ⟨Nat.succ_lt_succ hz.lt, ?_, hz.drop, hz.rest, hz.ne, ?_⟩⟩
    · rw [List.take_succ_cons, List.take_succ_cons, hz.take]
    · rw [completed, if_pos rfl, hz.completed, List.take_succ_cons, List.drop_succ_cons]
      rfl
  | case2 x cwd y dst hyx hslip =>
    obtain rfl := Option.some.inj h
    refine ⟨y, ⟨Nat.succ_pos _, rfl, rfl, hslip.1, ?_, ?_⟩⟩
    · simpa using Ne.symm hyx
    · rw [completed, if_neg hyx, if_pos hslip]
      rfl
  | case3 x cwd y dst hyx hslip => cases h
  | case4 cwd dst h' => cases h

lemma squeezeParts_inner {s : ℕ} {y : CString} (h : (squeezeParts dst).drop s = y :: (squeezeParts dst).drop (s + 1))
    (hrest : (squeezeParts dst).drop (s + 1) ≠ []) : y ≠ [] := by
  fun_induction squeezeParts dst generalizing s with
  | case1 z dst ih => exact ih h hrest
  | case2 x z dst hx ih =>
    cases s with
    | zero =>
      rw [List.drop_zero] at h
      exact (List.cons.inj h).1 ▸ hx
    | succ s => exact ih h hrest
  | case3 dst hdst =>
    exfalso
    cases dst with
    | nil => simp at hrest
    | cons x dst =>
      cases dst with
      | nil => simp at hrest
      | cons z dst => exact hdst x z dst rfl

lemma shifted_length {e e' : ℕ} (hle : e ≤ e') (hlt : e' < cwd.length) :
    (cwd.take (e + 1) ++ (cwd.take e').drop e).length = e' + 1 := by
  simp only [List.length_append, List.length_take, List.length_drop]
  omega

/-- `cwd` up to place `e`, then again from `e` to `e'`, is `cwd` itself as far as it repeats itself. -/
lemma take_shifted {e e' m : ℕ} (hle : e ≤ e') (hlt : e' < cwd.length) (hm : m ≤ e' + 1) :
    (cwd.take (e + 1) ++ (cwd.take e').drop e).take m = (cwd.take (e' + 1)).take m ↔
      ∀ i, e < i → i < m → cwd[i - 1]? = cwd[i]? := by
  have hget : ∀ i < m, (cwd.take (e + 1) ++ (cwd.take e').drop e)[i]? =
      if i ≤ e then cwd[i]? else cwd[i - 1]? := by
    intro i hi
    split_ifs with hie
    · rw [List.getElem?_append_left (by rw [List.length_take]; omega), List.getElem?_take_of_lt (by omega)]
    · have hlen : (cwd.take (e + 1)).length = e + 1 := by
        rw [List.length_take]
        omega
      rw [List.getElem?_append_right (by omega), hlen, List.getElem?_drop, List.getElem?_take_of_lt (by omega)]
      congr 1
      omega
  rw [List.take_take, Nat.min_eq_left hm]
  constructor
  · intro h i hei him
    have hi := congrArg (·[i]?) h
    simp only [List.getElem?_take_of_lt him] at hi
    rwa [hget i him, if_neg (by omega)] at hi
  · intro h
    apply List.ext_getElem?
    intro i
    by_cases him : i < m
    · rw [List.getElem?_take_of_lt him, List.getElem?_take_of_lt him, hget i him]
      split_ifs with hie
      · rfl
      · exact h i (by omega) him
    · rw [List.getElem?_take, if_neg him, List.getElem?_take, if_neg him]

lemma denoted_plain {here : List CString} (h : ∀ c ∈ here, Plain 0x2f 0x2e c) (rest : List CString) :
    denoted (here ++ rest) = here.take (here.length - climbs 0x2e rest) ++ kept 0x2e rest := by
  rw [denoted, List.foldl_append, foldl_enter_plain h, List.nil_append, foldl_enter_climbs]

section Readings

variable (hplain : ∀ c ∈ cwd, Plain 0x2f 0x2e c)
include hplain

lemma plain_take_drop {e e' : ℕ} :
    ∀ c ∈ cwd.take (e + 1) ++ (cwd.take e').drop e, Plain 0x2f 0x2e c := by
  intro c hc
  rcases List.mem_append.mp hc with hc | hc
  · exact hplain c (List.mem_of_mem_take hc)
  · exact hplain c (List.mem_of_mem_take (List.mem_of_mem_drop hc))

lemma repeats_iff {e e' : ℕ} (hle : e ≤ e') (hlt : e' < cwd.length) (rest : List CString) :
    denoted (cwd.take (e + 1) ++ (cwd.take e').drop e ++ rest) = denoted (cwd.take (e' + 1) ++ rest) ↔
      Repeats cwd e e' rest := by
  have hlen := shifted_length hle hlt
  have hlen' : (cwd.take (e' + 1)).length = e' + 1 := by
    rw [List.length_take]
    exact Nat.min_eq_left hlt
  rw [denoted_plain (plain_take_drop hplain), denoted_plain fun c hc => hplain c (List.mem_of_mem_take hc),
    hlen, hlen', List.append_cancel_right_eq, take_shifted hle hlt (Nat.sub_le _ _), Repeats]
  constructor
  · intro h i hi hclimb
    exact h i hi (by omega)
  · intro h i hi hm
    exact h i hi (by omega)

lemma absorbed_iff {e : ℕ} (hlt : e < cwd.length) (htake : dst.take e = cwd.take e)
    (hinner : ∀ s y, dst.drop s = y :: dst.drop (s + 1) → dst.drop (s + 1) ≠ [] → y ≠ []) :
    denoted (cwd.take (e + 1) ++ dst.drop e) = denoted (completed cwd dst) ↔ Absorbed cwd dst e := by
  rw [Absorbed]
  cases hslip : slip cwd dst with
  | none =>
    have hdst : cwd.take e ++ dst.drop e = dst := by rw [← htake, List.take_append_drop]
    rw [completed_of_slip_none hslip]
    conv_lhs => rhs; rw [← hdst]
    rw [denoted_plain fun c hc => hplain c (List.mem_of_mem_take hc),
      denoted_plain fun c hc => hplain c (List.mem_of_mem_take hc), List.append_cancel_right_eq,
      List.length_take, List.length_take, List.take_take, List.take_take]
    dsimp only
    constructor
    · intro h
      have := congrArg List.length h
      simp only [List.length_take] at this
      omega
    · intro h
      rw [show min (min (e + 1) cwd.length - climbs 0x2e (dst.drop e)) (e + 1) = 0 by omega,
        show min (min e cwd.length - climbs 0x2e (dst.drop e)) e = 0 by omega]
  | some s =>
    obtain ⟨y, hs⟩ := slip_spec hslip
    have hy := hinner s y hs.drop hs.rest
    have hes : e ≤ s := by
      by_contra hse
      have hat := congrArg (·[s]?) htake
      simp only [List.getElem?_take_of_lt (Nat.lt_of_not_le hse)] at hat
      apply hs.ne
      rw [← hat, ← List.head?_drop, hs.drop, List.head?_cons]
    have hat : dst[s]? = some y := by rw [← List.head?_drop, hs.drop, List.head?_cons]
    have hdrop : dst.drop e = (cwd.take s).drop e ++ y :: dst.drop (s + 1) := by
      rw [← hs.drop, ← hs.take, ← List.drop_append_of_le_length, List.take_append_drop]
      rw [List.length_take]
      have := (List.getElem?_eq_some_iff.mp hat).1
      omega
    rw [hs.completed, hdrop, ← List.append_assoc]
    dsimp only
    split_ifs with hdot
    · obtain rfl : y = [0x2e] := Option.some.inj (hat.symm.trans hdot)
      rw [← repeats_iff hplain hes hs.lt]
      have hskip : denoted (cwd.take (e + 1) ++ (cwd.take s).drop e ++ [0x2e] :: dst.drop (s + 1)) =
          denoted (cwd.take (e + 1) ++ (cwd.take s).drop e ++ dst.drop (s + 1)) := by
        simp [denoted, enter]
      rw [hskip]
    · have hne : y ≠ [0x2e] := fun he => hdot (he ▸ hat)
      have hlen := shifted_length hes hs.lt
      have hlen' : (cwd.take (s + 1)).length = s + 1 := by
        rw [List.length_take]
        exact Nat.min_eq_left hs.lt
      rw [denoted_plain (plain_take_drop hplain),
        denoted_plain fun c hc => hplain c (List.mem_of_mem_take hc), hlen, hlen', hs.drop, climbs, kept]
      generalize dst.drop (s + 1) = rest
      constructor
      · intro h
        have hlength := congrArg List.length h
        rw [List.length_append, List.length_append, List.length_take, List.length_take, hlen,
          hlen'] at hlength
        split_ifs at hlength ⊢ <;> simp_all <;> omega
      · rintro ⟨hs', hrest⟩
        have hkept : (if y = [0x2e, 0x2e] ∨ (y = [] ∨ y = [0x2e]) ∨ climbs 0x2e rest ≠ 0 then
            kept 0x2e rest else y :: kept 0x2e rest) = kept 0x2e rest := if_pos (.inr (.inr (by omega)))
        rw [hkept, Nat.sub_eq_zero_of_le hs', Nat.sub_eq_zero_of_le hrest]
        rfl

lemma gaps_iff {e e' : ℕ} (hle : e ≤ e') (hlt : e' < cwd.length) (htake : dst.take e' = cwd.take e') :
    denoted (cwd.take (e + 1) ++ dst.drop e) = denoted (cwd.take (e' + 1) ++ dst.drop e') ↔
      Repeats cwd e e' (dst.drop e') := by
  have hlen := congrArg List.length htake
  rw [List.length_take, List.length_take] at hlen
  have hdrop : dst.drop e = (cwd.take e').drop e ++ dst.drop e' := by
    rw [← htake, ← List.drop_append_of_le_length, List.take_append_drop]
    rw [List.length_take]
    omega
  rw [hdrop, ← List.append_assoc]
  exact repeats_iff hplain hle hlt (dst.drop e')

lemma inserted_iff {g g' : Option ℕ} (hg : ∀ e, g = some e → e < cwd.length ∧ dst.take e = cwd.take e)
    (hg' : ∀ e, g' = some e → e < cwd.length ∧ dst.take e = cwd.take e)
    (hinner : ∀ s y, dst.drop s = y :: dst.drop (s + 1) → dst.drop (s + 1) ≠ [] → y ≠ []) :
    denoted (inserted cwd dst g) = denoted (inserted cwd dst g') ↔ Harmless cwd dst g g' := by
  cases g with
  | none =>
    cases g' with
    | none => exact iff_of_true rfl trivial
    | some e =>
      obtain ⟨hlt, htake⟩ := hg' e rfl
      rw [eq_comm]
      exact absorbed_iff hplain hlt htake hinner
  | some e =>
    obtain ⟨hlt, htake⟩ := hg e rfl
    cases g' with
    | none => exact absorbed_iff hplain hlt htake hinner
    | some e' =>
      obtain ⟨hlt', htake'⟩ := hg' e' rfl
      rw [Harmless]
      rcases le_total e e' with hle | hle
      · rw [Nat.min_eq_left hle, Nat.max_eq_right hle]
        exact gaps_iff hplain hle hlt' htake'
      · rw [Nat.min_eq_right hle, Nat.max_eq_left hle, eq_comm]
        exact gaps_iff hplain hle hlt htake

end Readings

lemma gap_spec (cwd : AbsPath) {path : CString} (h : path.head? = some 0x2f) {e : ℕ}
    (he : gap cwd.comps (parts path) = some e) :
    e < cwd.comps.length ∧ (parts (squeeze path)).take e = cwd.comps.take e := by
  rw [parts_squeeze h]
  exact ⟨(gap_bounds he).1, gap_take (fun c hc => (cwd.plain c hc).ne_nil) he⟩

/-- The paths lead to the same file iff their gaps are at one place, or what they put in at different
places is repeated in `cwd` or climbed over by the rest of the path. -/
theorem relpath_repeated_iff (cwd : AbsPath) (dst dst' : CString) (habs : dst.head? = some 0x2f)
    (habs' : dst'.head? = some 0x2f) (hsqueeze : squeeze dst = squeeze dst') :
    (∃ rel rel', relpath cwd.text dst = some rel ∧ relpath cwd.text dst' = some rel' ∧
        follow 0x2f 0x2e cwd.comps rel = follow 0x2f 0x2e cwd.comps rel') ↔
      Harmless cwd.comps (parts (squeeze dst)) (gap cwd.comps (parts dst))
        (gap cwd.comps (parts dst')) := by
  obtain ⟨rel, hrel, hfollow⟩ := relpath_inserted cwd habs
  obtain ⟨rel', hrel', hfollow'⟩ := relpath_inserted cwd habs'
  have hinner : ∀ s y, (parts (squeeze dst)).drop s = y :: (parts (squeeze dst)).drop (s + 1) →
      (parts (squeeze dst)).drop (s + 1) ≠ [] → y ≠ [] := by
    intro s y hdrop hrest
    rw [parts_squeeze habs] at hdrop hrest
    exact squeezeParts_inner hdrop hrest
  rw [← inserted_iff cwd.plain (fun e he => gap_spec cwd habs he)
    (fun e he => hsqueeze ▸ gap_spec cwd habs' he) hinner, ← hfollow]
  rw [← hsqueeze] at hfollow'
  rw [← hfollow']
  constructor
  · rintro ⟨r, r', hr, hr', heq⟩
    obtain rfl := Option.some.inj (hrel.symm.trans hr)
    obtain rfl := Option.some.inj (hrel'.symm.trans hr')
    exact heq
  · intro heq
    exact ⟨rel, rel', hrel, hrel', heq⟩

/-- Between plain components a gap that only one of the paths has always makes a difference. -/
theorem not_absorbed_plain {cwd dst : List CString} (h : ∀ c ∈ dst, Plain 0x2f 0x2e c) (e : ℕ) :
    ¬ Absorbed cwd dst e := by
  have hclimb : ∀ k, climbs 0x2e (dst.drop k) = 0 :=
    fun k => climbs_plain fun c hc => h c (List.mem_of_mem_drop hc)
  rw [Absorbed]
  cases slip cwd dst with
  | none =>
    rw [hclimb]
    exact Nat.not_lt_zero e
  | some s =>
    dsimp only
    split_ifs with hdot
    · exact absurd rfl (h _ (List.mem_of_getElem? hdot)).ne_here
    · rw [hclimb]
      exact fun hs => Nat.not_lt_zero s hs.1

def workDir : AbsPath := ⟨[ascii "a", ascii "b"], by
  simpa using And.intro (Plain.mk (by decide) (by decide) (by decide) (by decide))
    (Plain.mk (by decide) (by decide) (by decide) (by decide))⟩

def twiceDir : AbsPath := ⟨[ascii "a", ascii "a", ascii "b"], by
  have ha : Plain 0x2f 0x2e (ascii "a") := ⟨by decide, by decide, by decide, by decide⟩
  have hb : Plain 0x2f 0x2e (ascii "b") := ⟨by decide, by decide, by decide, by decide⟩
  simpa using And.intro ha hb⟩

theorem relpath_repeated_twice :
    ∃ rel rel', relpath twiceDir.text (ascii "//a/x.h") = some rel ∧
      relpath twiceDir.text (ascii "/a//x.h") = some rel' ∧
      follow 0x2f 0x2e twiceDir.comps rel = follow 0x2f 0x2e twiceDir.comps rel' := by
  refine (relpath_repeated_iff twiceDir (ascii "//a/x.h") (ascii "/a//x.h") (by decide) (by decide)
    (by decide +kernel)).mpr ?_
  have hgap : gap twiceDir.comps (parts (ascii "//a/x.h")) = some 0 := by decide +kernel
  have hgap' : gap twiceDir.comps (parts (ascii "/a//x.h")) = some 1 := by decide +kernel
  rw [hgap, hgap']
  intro i hi hclimb
  have hle : i ≤ max 0 1 := (Nat.le_add_right ..).trans hclimb
  obtain rfl : i = 1 := Nat.le_antisymm hle hi
  decide

theorem relpath_repeated_differs :
    workDir.text = ascii "/a/b" ∧ squeeze (ascii "/a/b/c") = squeeze (ascii "//a/b/c") ∧
      relpath workDir.text (ascii "/a/b/c") = some (ascii "c") ∧
      relpath workDir.text (ascii "//a/b/c") = some (ascii "../a/b/c") ∧
      follow 0x2f 0x2e workDir.comps (ascii "c") = [ascii "a", ascii "b", ascii "c"] ∧
      follow 0x2f 0x2e workDir.comps (ascii "../a/b/c") =
        [ascii "a", ascii "a", ascii "b", ascii "c"] := by
  decide +kernel

end Metroskrew.Patch.Relpath
