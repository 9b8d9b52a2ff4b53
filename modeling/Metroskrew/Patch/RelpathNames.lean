import Metroskrew.Library.PathResolution
import Metroskrew.Patch.Relpath

/-! Which file `relpath` names, for directories and files given by their components. -/

namespace Metroskrew.Patch.Relpath

open Metroskrew.Library.PathResolution

structure AbsPath where
  comps : List CString
  plain : ∀ c ∈ comps, Plain 0x2f 0x2e c

variable (sep : UInt8)

def joined (cs : List CString) : CString := cs.flatMap (sep :: ·)

def AbsPath.text (path : AbsPath) : CString :=
  if path.comps = [] then [0x2f] else joined 0x2f path.comps

/-- The steps up and the components below that `relpath` arrives at. -/
def climb : List CString → List CString → ℕ × List CString
  | [], dst => (0, dst)
  | x :: cwd, [] => ((x :: cwd).length, [])
  | x :: cwd, y :: dst =>
    if y = x then climb cwd dst
    else if dst ≠ [] ∧ y <+: x then (cwd.length, dst)
    else ((x :: cwd).length, y :: dst)

/-- Before its last component `dst` has one that is a proper beginning of the component of `cwd` at
the same place, after equal ones. -/
def ComponentSlip (cwd dst : List CString) : Prop :=
  ∃ pre x y cwdRest dstRest, cwd = pre ++ x :: cwdRest ∧ dst = pre ++ y :: dstRest ∧
    dstRest ≠ [] ∧ y <+: x ∧ y ≠ x

variable {sep}

@[simp] lemma joined_nil : joined sep [] = [] := rfl

@[simp] lemma joined_cons (c : CString) (cs : List CString) :
    joined sep (c :: cs) = sep :: (c ++ joined sep cs) := rfl

lemma strchr_joined (cs : List CString) : (strchr (joined sep cs) sep).getD [] = joined sep cs := by
  cases cs with
  | nil => rfl
  | cons c cs => rw [joined_cons, strchr_cons, Option.getD_some]

lemma countSeps_append {s : CString} (hs : sep ∉ s) (t : CString) :
    countSeps sep (s ++ t) = countSeps sep t := by
  rw [countSeps, countSeps]
  split <;> split <;> simp_all [strchr_append]

lemma countSeps_joined {cs : List CString} (h : ∀ c ∈ cs, sep ∉ c) :
    countSeps sep (joined sep cs) = cs.length := by
  induction cs with
  | nil =>
    rw [countSeps]
    rfl
  | cons c cs ih =>
    have hc := h c List.mem_cons_self
    have ht := ih fun d hd => h d (List.mem_cons_of_mem c hd)
    rw [joined_cons, countSeps]
    split
    · rename_i hnone
      rw [strchr_cons] at hnone
      cases hnone
    · rename_i t hsome
      rw [strchr_cons] at hsome
      cases hsome
      rw [List.tail_cons, countSeps_append hc, ht, List.length_cons]

lemma stripLoop_last {y : CString} (hy : sep ∉ y) (w : CString) :
    stripLoop sep (sep :: y) w = some (sep :: y, w) := by
  rw [stripLoop, if_neg (by simp)]
  split
  · rfl
  · rename_i c hc
    rw [List.tail_cons, strchr_of_not_mem hy] at hc
    cases hc

lemma stripLoop_cons {y : CString} (hy : sep ∉ y) (t w : CString) :
    stripLoop sep (sep :: (y ++ sep :: t)) w =
      if w.take (y.length + 1) = sep :: y then stripLoop sep (sep :: t) (w.drop (y.length + 1))
      else some (sep :: (y ++ sep :: t), w) := by
  have hlen : (sep :: (y ++ sep :: t)).length - (sep :: t).length = y.length + 1 := by
    simp only [List.length_cons, List.length_append]
    omega
  have htake : (sep :: (y ++ sep :: t)).take (y.length + 1) = sep :: y := by simp
  have hdrop : (sep :: (y ++ sep :: t)).drop (y.length + 1) = sep :: t := by simp
  rw [stripLoop, if_neg (by simp)]
  split
  · rename_i hc
    rw [List.tail_cons, strchr_append hy, strchr_cons] at hc
    cases hc
  · rename_i c hc
    rw [List.tail_cons, strchr_append hy, strchr_cons] at hc
    cases hc
    simp only [hlen, htake, hdrop]
    by_cases hw : w.take (y.length + 1) = sep :: y
    · have hle : y.length + 1 ≤ w.length := by
        have := congrArg List.length hw
        simp only [List.length_take, List.length_cons] at this
        omega
      rw [if_neg (by simpa using hw.symm), if_pos hw, advance, if_pos hle]
    · rw [if_pos (by simpa [eq_comm] using hw), if_neg hw]

lemma stripFinal_none {w : CString} (hw : w.head? ≠ some sep) (d : CString) :
    stripFinal sep d w = some (d, w) := if_neg hw

lemma stripFinal_joined {x : CString} (hx : sep ∉ x) (cwd : List CString) (d : CString) :
    stripFinal sep d (joined sep (x :: cwd)) =
      if d = sep :: x then some ([], joined sep cwd) else some (d, joined sep (x :: cwd)) := by
  have hc : (strchr (x ++ joined sep cwd) sep).getD [] = joined sep cwd := by
    rw [strchr_append hx, strchr_joined]
  have hlen : (joined sep (x :: cwd)).length - (joined sep cwd).length = x.length + 1 := by
    simp only [joined_cons, List.length_cons, List.length_append]
    omega
  have htake : (joined sep (x :: cwd)).take (x.length + 1) = sep :: x := by simp
  have hdrop : (joined sep (x :: cwd)).drop (x.length + 1) = joined sep cwd := by simp
  have hle : x.length + 1 ≤ (joined sep (x :: cwd)).length := by simp
  rw [stripFinal, if_pos (by rfl), joined_cons, List.tail_cons, hc, ← joined_cons]
  simp only [hlen, htake]
  by_cases hd : d = sep :: x
  · subst hd
    rw [if_pos (by simp), if_pos rfl, advance, advance, if_pos (by simp), if_pos hle, hdrop]
    simp
  · rw [if_neg, if_neg hd]
    rintro ⟨heq, hnil⟩
    rw [← List.take_append_drop (x.length + 1) d, heq, hnil, List.append_nil] at hd
    exact hd rfl

lemma buildRel_cons {y : CString} {dst : List CString} (h : y ++ joined sep dst ≠ []) (p : ℕ) :
    buildRel [0x2e, 0x2e, sep] p (y ++ joined sep dst) = some (relative sep 0x2e p (y :: dst)) := by
  rw [buildRel, if_neg h, relative_cons, List.append_assoc]
  rfl

lemma buildRel_up (p : ℕ) :
    buildRel [0x2e, 0x2e, sep] p (if p = 0 then ascii "." else []) =
      some (relative sep 0x2e p []) := by
  cases p with
  | zero => rfl
  | succ p =>
    rw [if_neg (Nat.succ_ne_zero p), buildRel, if_pos rfl, if_neg (Nat.succ_ne_zero p),
      relative_succ_nil]

lemma relpathFrom_below {d w w' y : CString} {dst : List CString} (h : y ++ joined sep dst ≠ [])
    (hloop : stripLoop sep d w = some (joined sep (y :: dst), w'))
    (hfinal : stripFinal sep (joined sep (y :: dst)) w' = some (joined sep (y :: dst), w')) :
    relpathFrom sep [0x2e, 0x2e, sep] d w =
      some (relative sep 0x2e (countSeps sep w') (y :: dst)) := by
  rw [joined_cons] at hloop hfinal
  rw [← buildRel_cons h]
  generalize y ++ joined sep dst = t at h hloop hfinal ⊢
  simp [relpathFrom, hloop, hfinal, h]

lemma relpathFrom_up {d w d' w' d'' w'' : CString} (hd : d' ≠ []) (hd' : d'' = [] ∨ d'' = [sep])
    (hloop : stripLoop sep d w = some (d', w')) (hfinal : stripFinal sep d' w' = some (d'', w'')) :
    relpathFrom sep [0x2e, 0x2e, sep] d w = some (relative sep 0x2e (countSeps sep w'') []) := by
  rw [← buildRel_up]
  rcases hd' with rfl | rfl <;> simp [relpathFrom, hloop, hfinal, hd]

/-- What the result shows of the components that are left: not a single empty one. -/
def shown (ys : List CString) : List CString := if ys = [[]] then [] else ys

lemma relpathFrom_final {d w w' : CString} {ys : List CString} (hne : ys ≠ [])
    (hloop : stripLoop sep d w = some (joined sep ys, w'))
    (hfinal : stripFinal sep (joined sep ys) w' = some (joined sep ys, w')) :
    relpathFrom sep [0x2e, 0x2e, sep] d w =
      some (relative sep 0x2e (countSeps sep w') (shown ys)) := by
  rw [shown]
  split_ifs with hempty
  · subst hempty
    exact relpathFrom_up (by simp) (.inr rfl) hloop hfinal
  · obtain ⟨y, dst, rfl⟩ := List.exists_cons_of_ne_nil hne
    refine relpathFrom_below (fun hnil => hempty ?_) hloop hfinal
    obtain ⟨rfl, hdst⟩ := List.append_eq_nil_iff.mp hnil
    cases dst with
    | nil => rfl
    | cons z dst => cases hdst

lemma relpathFrom_loop {d w d' w' par : CString} (h : stripLoop sep d w = stripLoop sep d' w') :
    relpathFrom sep par d w = relpathFrom sep par d' w' := by
  rw [relpathFrom, relpathFrom, h]

lemma take_joined {x y : CString} (hy : sep ∉ y) (cwd : List CString) :
    (joined sep (x :: cwd)).take (y.length + 1) = sep :: y ↔ y <+: x := by
  rw [joined_cons, List.take_succ_cons, List.cons.injEq, and_iff_right rfl]
  constructor
  · intro h
    have hpre : y <+: x ++ joined sep cwd := List.prefix_iff_eq_take.mpr h.symm
    rcases List.prefix_or_prefix_of_prefix hpre (List.prefix_append x _) with hyx | hxy
    · exact hyx
    · obtain ⟨t, rfl⟩ := hxy
      have ht : t <+: joined sep cwd := (List.prefix_append_right_inj x).mp hpre
      cases t with
      | nil => simp
      | cons b t =>
        cases cwd with
        | nil =>
          rw [joined_nil] at ht
          simp at ht
        | cons c cs =>
          obtain rfl : b = sep := (List.cons_prefix_cons.mp ht).1
          exact absurd (List.mem_append_right x List.mem_cons_self) hy
  · rintro ⟨t, rfl⟩
    simp

lemma climb_nil (cwd : List CString) : climb cwd [] = (cwd.length, []) := by
  cases cwd <;> rfl

lemma stripLoop_stays {y : CString} (hy : sep ∉ y) {dst : List CString} {w : CString}
    (h : dst ≠ [] → w.take (y.length + 1) ≠ sep :: y) :
    stripLoop sep (joined sep (y :: dst)) w = some (joined sep (y :: dst), w) := by
  cases dst with
  | nil =>
    rw [joined_cons, joined_nil, List.append_nil]
    exact stripLoop_last hy w
  | cons z dst => rw [joined_cons, joined_cons, stripLoop_cons hy, if_neg (h (by simp))]

lemma stripLoop_next {y : CString} (hy : sep ∉ y) (t : CString) (cwd : List CString) (z : CString)
    (dst : List CString) :
    stripLoop sep (joined sep (y :: z :: dst)) (joined sep ((y ++ t) :: cwd)) =
      stripLoop sep (joined sep (z :: dst)) (t ++ joined sep cwd) := by
  rw [joined_cons y, joined_cons z, stripLoop_cons hy,
    if_pos ((take_joined hy cwd).mpr (List.prefix_append y t))]
  simp

lemma take_ne_of_head {w : CString} (h : w.head? ≠ some sep) (z : CString) :
    w.take (z.length + 1) ≠ sep :: z := by
  intro htake
  apply h
  have := congrArg List.head? htake
  rwa [List.head?_take, if_neg (Nat.succ_ne_zero _)] at this

lemma relpathFrom_climb {cwd dst : List CString} (hcwd : ∀ c ∈ cwd, sep ∉ c)
    (hdst : ∀ c ∈ dst, sep ∉ c) (hne : dst ≠ []) :
    relpathFrom sep [0x2e, 0x2e, sep] (joined sep dst) (joined sep cwd) =
      some (relative sep 0x2e (climb cwd dst).1 (shown (climb cwd dst).2)) := by
  fun_induction climb cwd dst with
  | case1 dst =>
    obtain ⟨y, dst, rfl⟩ := List.exists_cons_of_ne_nil hne
    have hy := hdst y List.mem_cons_self
    rw [relpathFrom_final hne (stripLoop_stays hy (by simp)) (stripFinal_none (by simp) _),
      countSeps_joined hcwd]
    rfl
  | case2 x cwd => exact absurd rfl hne
  | case3 cwd y dst ih =>
    have hy := hdst y List.mem_cons_self
    have hcwd' := fun c hc => hcwd c (List.mem_cons_of_mem y hc)
    cases dst with
    | nil =>
      have hlast : stripFinal sep (joined sep [y]) (joined sep (y :: cwd)) =
          some ([], joined sep cwd) := by
        rw [stripFinal_joined hy, if_pos (by simp)]
      rw [relpathFrom_up (by simp) (.inl rfl) (stripLoop_stays hy (by simp)) hlast, countSeps_joined hcwd',
        climb_nil]
      rfl
    | cons z dst =>
      have hstep : stripLoop sep (joined sep (y :: z :: dst)) (joined sep (y :: cwd)) =
          stripLoop sep (joined sep (z :: dst)) (joined sep cwd) := by
        simpa using stripLoop_next hy [] cwd z dst
      rw [relpathFrom_loop hstep]
      exact ih hcwd' (fun c hc => hdst c (List.mem_cons_of_mem y hc)) (List.cons_ne_nil z dst)
  | case4 x cwd y dst hyx hslip =>
    obtain ⟨hdne, t, rfl⟩ := hslip
    have hy := hdst y List.mem_cons_self
    obtain ⟨z, dst, rfl⟩ := List.exists_cons_of_ne_nil hdne
    have hz := hdst z (by simp)
    have ht : sep ∉ t := fun h => hcwd _ List.mem_cons_self (List.mem_append_right y h)
    have hhead : (t ++ joined sep cwd).head? ≠ some sep := by
      cases t with
      | nil => simp at hyx
      | cons b t => simpa using fun hb : b = sep => ht (hb ▸ List.mem_cons_self)
    have hstays : dst ≠ [] → (t ++ joined sep cwd).take (z.length + 1) ≠ sep :: z :=
      fun _ => take_ne_of_head hhead z
    rw [relpathFrom_loop (stripLoop_next hy t cwd z dst),
      relpathFrom_final hdne (stripLoop_stays hz hstays) (stripFinal_none hhead _),
      countSeps_append ht, countSeps_joined (fun c hc => hcwd c (List.mem_cons_of_mem _ hc))]
  | case5 x cwd y dst hyx hslip =>
    have hy := hdst y List.mem_cons_self
    have hx := hcwd x List.mem_cons_self
    have hstays : dst ≠ [] → (joined sep (x :: cwd)).take (y.length + 1) ≠ sep :: y :=
      fun hd htake => hslip ⟨hd, (take_joined hy cwd).mp htake⟩
    have hfinal : stripFinal sep (joined sep (y :: dst)) (joined sep (x :: cwd)) =
        some (joined sep (y :: dst), joined sep (x :: cwd)) := by
      rw [stripFinal_joined hx, if_neg]
      cases dst with
      | nil => simpa using hyx
      | cons z dst =>
        intro h
        apply hx
        rw [← (List.cons.inj h).2]
        simp
    rw [relpathFrom_final hne (stripLoop_stays hy hstays) hfinal, countSeps_joined hcwd]

lemma climb_le (cwd dst : List CString) : (climb cwd dst).1 ≤ cwd.length := by
  fun_induction climb cwd dst with
  | case1 dst => exact le_rfl
  | case2 x cwd => exact le_rfl
  | case3 cwd y dst ih => exact Nat.le_succ_of_le ih
  | case4 x cwd y dst hyx hslip => exact Nat.le_succ _
  | case5 x cwd y dst hyx hslip => exact le_rfl

lemma climb_mem {cwd dst : List CString} {c : CString} (h : c ∈ (climb cwd dst).2) : c ∈ dst := by
  fun_induction climb cwd dst with
  | case1 dst => exact h
  | case2 x cwd => exact h
  | case3 cwd y dst ih => exact List.mem_cons_of_mem y (ih h)
  | case4 x cwd y dst hyx hslip => exact List.mem_cons_of_mem y h
  | case5 x cwd y dst hyx hslip => exact h

lemma componentSlip_cons {x y : CString} {cwd dst : List CString} :
    ComponentSlip (x :: cwd) (y :: dst) ↔
      x = y ∧ ComponentSlip cwd dst ∨ dst ≠ [] ∧ y <+: x ∧ y ≠ x := by
  constructor
  · rintro ⟨pre, x', y', cwdRest, dstRest, hcwd, hdst, hslip⟩
    cases pre with
    | nil =>
      cases hcwd
      cases hdst
      exact .inr hslip
    | cons p pre =>
      cases hcwd
      cases hdst
      exact .inl ⟨rfl, pre, x', y', cwdRest, dstRest, rfl, rfl, hslip⟩
  · rintro (⟨rfl, pre, x', y', cwdRest, dstRest, rfl, rfl, hslip⟩ | hslip)
    · exact ⟨x :: pre, x', y', cwdRest, dstRest, rfl, rfl, hslip⟩
    · exact ⟨[], x, y, cwd, dst, rfl, rfl, hslip⟩

lemma climb_names (cwd dst : List CString) :
    cwd.take (cwd.length - (climb cwd dst).1) ++ (climb cwd dst).2 = dst ↔
      ¬ ComponentSlip cwd dst := by
  fun_induction climb cwd dst with
  | case1 dst => simp [ComponentSlip]
  | case2 x cwd => simp [ComponentSlip]
  | case3 cwd y dst ih =>
    have hle := climb_le cwd dst
    rw [componentSlip_cons, List.length_cons, Nat.succ_sub hle, List.take_succ_cons,
      List.cons_append, List.cons.injEq, and_iff_right rfl, ih]
    simp
  | case4 x cwd y dst hyx hslip =>
    rw [componentSlip_cons, List.length_cons, Nat.add_sub_cancel_left]
    simp [hslip, hyx, Ne.symm hyx]
  | case5 x cwd y dst hyx hslip =>
    rw [componentSlip_cons, Nat.sub_self]
    simpa [Ne.symm hyx] using fun hd hpre => (hslip ⟨hd, hpre⟩).elim

/-- The components of the text of a path: the root is written as one empty component. -/
def steps (comps : List CString) : List CString := if comps = [] then [[]] else comps

lemma AbsPath.text_eq (path : AbsPath) : path.text = joined 0x2f (steps path.comps) := by
  rw [AbsPath.text, steps]
  split_ifs <;> rfl

lemma AbsPath.sep_steps (path : AbsPath) : ∀ c ∈ steps path.comps, (0x2f : UInt8) ∉ c := by
  intro c hc
  rw [steps] at hc
  split_ifs at hc
  · simp [List.mem_singleton.mp hc]
  · exact (path.plain c hc).sep_not_mem

lemma relpath_climb (cwd : AbsPath) {dst : List CString} (hdst : ∀ c ∈ dst, (0x2f : UInt8) ∉ c)
    (hne : dst ≠ []) : relpath cwd.text (joined 0x2f dst) =
      some (relative 0x2f 0x2e (climb (steps cwd.comps) dst).1 (shown (climb (steps cwd.comps) dst).2)) := by
  rw [cwd.text_eq]
  exact relpathFrom_climb cwd.sep_steps hdst hne

lemma shown_of_mem {ys : List CString} (h : ∀ c ∈ ys, c ≠ []) : shown ys = ys := by
  rw [shown, if_neg]
  rintro rfl
  exact h [] List.mem_cons_self rfl

/-- The result is a relative path; only at the root does it go up once more than it has to. -/
lemma relpath_relative (cwd dst : AbsPath) :
    ∃ n, relpath cwd.text dst.text = some (relative 0x2f 0x2e n (climb cwd.comps dst.comps).2) ∧
      cwd.comps.take (cwd.comps.length - n) =
        cwd.comps.take (cwd.comps.length - (climb cwd.comps dst.comps).1) := by
  have hdst : steps dst.comps ≠ [] := by
    rw [steps]
    split_ifs with hroot
    · simp
    · exact hroot
  have hshown : shown (climb cwd.comps dst.comps).2 = (climb cwd.comps dst.comps).2 :=
    shown_of_mem fun c hc => (dst.plain c (climb_mem hc)).ne_nil
  have hclimb := relpath_climb cwd dst.sep_steps hdst
  rw [← dst.text_eq] at hclimb
  obtain ⟨cwd, hcwd⟩ := cwd
  obtain ⟨dst, hplain⟩ := dst
  cases cwd with
  | nil =>
    refine ⟨(climb [[]] (steps dst)).1, hclimb.trans ?_, by simp⟩
    cases dst with
    | nil => rfl
    | cons y dst =>
      have hy := (hplain y List.mem_cons_self).ne_nil
      simp [steps, climb, hy, shown]
  | cons x cwd =>
    refine ⟨(climb (x :: cwd) dst).1, hclimb.trans ?_, rfl⟩
    cases dst with
    | nil =>
      have hx := (hcwd x List.mem_cons_self).ne_nil
      simp [steps, climb, Ne.symm hx, shown]
    | cons y dst =>
      rw [show steps (x :: cwd) = x :: cwd from rfl, show steps (y :: dst) = y :: dst from rfl, hshown]

/-- What `relpath` returns leads from the directory to the file iff the stripping did not end inside
a component. -/
theorem relpath_resolves (cwd dst : AbsPath) :
    (∃ rel, relpath cwd.text dst.text = some rel ∧
        resolve 0x2f 0x2e cwd.comps rel = dst.comps) ↔
      ¬ ComponentSlip cwd.comps dst.comps := by
  obtain ⟨n, hrel, htake⟩ := relpath_relative cwd dst
  have hplain : ∀ c ∈ (climb cwd.comps dst.comps).2, Plain 0x2f 0x2e c :=
    fun c hc => dst.plain c (climb_mem hc)
  rw [← climb_names, ← htake, ← resolve_relative (by decide) n hplain cwd.comps, hrel]
  simp

def foobarDir : AbsPath := ⟨[ascii "foobar"], by
  simpa using Plain.mk (by decide) (by decide) (by decide) (by decide)⟩

def fooX : AbsPath := ⟨[ascii "foo", ascii "x"], by
  simpa using And.intro (Plain.mk (by decide) (by decide) (by decide) (by decide))
    (Plain.mk (by decide) (by decide) (by decide) (by decide))⟩

theorem relpath_inside_component :
    foobarDir.text = ascii "/foobar" ∧ fooX.text = ascii "/foo/x" ∧
      relpath foobarDir.text fooX.text = some (ascii "x") ∧
      resolve 0x2f 0x2e foobarDir.comps (ascii "x") ≠ fooX.comps := by
  decide +kernel

end Metroskrew.Patch.Relpath
