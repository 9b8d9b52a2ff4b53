import Mathlib.Data.List.Basic
import Mathlib.Tactic

/-! Paths as text and as lists of components: reading a path from a directory, and the relative path
made of a number of steps up and the components below. -/

namespace Metroskrew.Library.PathResolution

variable {α : Type*} (sep dot : α)

structure Plain (c : List α) : Prop where
  ne_nil : c ≠ []
  sep_not_mem : sep ∉ c
  ne_here : c ≠ [dot]
  ne_parent : c ≠ [dot, dot]

/-- `n` steps up, then down along `cs`. -/
def relative (n : ℕ) (cs : List (List α)) : List α :=
  if List.replicate n [dot, dot] ++ cs = [] then [dot]
  else [sep].intercalate (List.replicate n [dot, dot] ++ cs)

variable {sep dot}

lemma intercalate_cons (c : List α) {cs : List (List α)} (h : cs ≠ []) :
    [sep].intercalate (c :: cs) = c ++ sep :: [sep].intercalate cs := by
  cases cs with
  | nil => exact absurd rfl h
  | cons d ds => simp [List.intercalate]

lemma intercalate_flatMap (c : List α) (cs : List (List α)) :
    [sep].intercalate (c :: cs) = c ++ cs.flatMap (sep :: ·) := by
  induction cs generalizing c with
  | nil => simp [List.intercalate]
  | cons d ds ih =>
    rw [intercalate_cons c (List.cons_ne_nil d ds), ih d]
    rfl

lemma intercalate_parents (n : ℕ) (c : List α) (cs : List (List α)) :
    [sep].intercalate (List.replicate n [dot, dot] ++ c :: cs) =
      (List.replicate n [dot, dot, sep]).flatten ++ c ++ cs.flatMap (sep :: ·) := by
  induction n with
  | zero => simpa using intercalate_flatMap c cs
  | succ n ih =>
    rw [List.replicate_succ, List.cons_append, intercalate_cons _ (by simp), ih]
    simp [List.replicate_succ]

lemma relative_cons (n : ℕ) (c : List α) (cs : List (List α)) :
    relative sep dot n (c :: cs) =
      (List.replicate n [dot, dot, sep]).flatten ++ c ++ cs.flatMap (sep :: ·) := by
  rw [relative, if_neg (by simp), intercalate_parents]

lemma relative_succ_nil (n : ℕ) :
    relative sep dot (n + 1) [] = (List.replicate (n + 1) [dot, dot, sep]).flatten.dropLast := by
  have h : [sep].intercalate (List.replicate n [dot, dot] ++ [[dot, dot]]) = _ :=
    intercalate_parents n [dot, dot] []
  rw [relative, if_neg (by simp), List.append_nil, List.replicate_succ', h, List.replicate_succ',
    List.flatten_append, List.dropLast_append_of_ne_nil (by simp)]
  simp

lemma head_intercalate {cs : List (List α)} (h : ∀ c ∈ cs, c ≠ [] ∧ sep ∉ c) :
    ([sep].intercalate cs).head? ≠ some sep := by
  cases cs with
  | nil => simp [List.intercalate]
  | cons c cs =>
    obtain ⟨hne, hsep⟩ := h c List.mem_cons_self
    obtain ⟨a, as, rfl⟩ := List.exists_cons_of_ne_nil hne
    have ha : a ≠ sep := fun he => hsep (he ▸ List.mem_cons_self)
    cases cs with
    | nil => simpa [List.intercalate] using ha
    | cons d ds => simpa [List.intercalate] using ha

lemma head_relative (hdot : dot ≠ sep) (n : ℕ) {cs : List (List α)} (hcs : ∀ c ∈ cs, c ≠ [] ∧ sep ∉ c) :
    (relative sep dot n cs).head? ≠ some sep := by
  rw [relative]
  split_ifs with hempty
  · simpa using hdot
  · apply head_intercalate
    intro c hc
    rcases List.mem_append.mp hc with hc | hc
    · rw [List.eq_of_mem_replicate hc]
      simpa using hdot.symm
    · exact hcs c hc

variable [DecidableEq α]

variable (sep dot) in
/-- Where a path component leads; the parent of the root is the root. -/
def enter (here : List (List α)) (c : List α) : List (List α) :=
  if c = [dot, dot] then here.dropLast
  else if c = [] ∨ c = [dot] then here
  else here ++ [c]

variable (sep dot) in
def resolve (here : List (List α)) (path : List α) : List (List α) :=
  (path.splitOn sep).foldl (enter dot) (if path.head? = some sep then [] else here)

variable (sep dot) in
/-- Where the components of a path lead one after the other, also if it starts with a separator. -/
def follow (here : List (List α)) (path : List α) : List (List α) :=
  (path.splitOn sep).foldl (enter dot) here

variable (sep) in
/-- The components written in a path; separators that follow each other count as one. -/
def names (path : List α) : List (List α) := (path.splitOn sep).filter (· ≠ [])

variable (sep) in
/-- The components of a path read from a directory, none of them followed. -/
def components (here : List (List α)) (path : List α) : List (List α) :=
  if path.head? = some sep then names sep path else here ++ names sep path

lemma names_append (s t : List α) : names sep (s ++ sep :: t) = names sep s ++ names sep t := by
  rw [names, List.splitOn_append_cons_self, List.filter_append]
  rfl

lemma names_cons (t : List α) : names sep (sep :: t) = names sep t := by
  have h : names sep ([] ++ sep :: t) = names sep [] ++ names sep t := names_append [] t
  rwa [List.nil_append, show names sep ([] : List α) = [] by simp [names], List.nil_append] at h

lemma names_eq_nil {path : List α} : names sep path = [] ↔ ∀ c ∈ path, c = sep := by
  induction path with
  | nil => simp [names]
  | cons c path ih =>
    by_cases hc : c = sep
    · subst hc
      simp [names_cons, ih]
    · have hsome : names sep (c :: path) ≠ [] := by
        intro hnil
        rw [names, List.filter_eq_nil_iff] at hnil
        have hhead : List.intercalate [sep] ((c :: path).splitOn sep) = c :: path :=
          List.intercalate_splitOn sep
        cases hsplit : (c :: path).splitOn sep with
        | nil => exact List.splitOn_ne_nil sep (c :: path) hsplit
        | cons l ls =>
          have hl : l = [] := by simpa using hnil l (by simp [hsplit])
          rw [hsplit, hl] at hhead
          cases ls with
          | nil => simp [List.intercalate] at hhead
          | cons k ks =>
            rw [intercalate_cons [] (List.cons_ne_nil k ks)] at hhead
            exact hc (List.cons.inj hhead).1.symm
      simp [hsome, hc]

lemma foldl_enter_names (here cs : List (List α)) :
    (cs.filter (· ≠ [])).foldl (enter dot) here = cs.foldl (enter dot) here := by
  induction cs generalizing here with
  | nil => rfl
  | cons c cs ih =>
    by_cases hc : c = []
    · have henter : enter dot here c = here := by simp [enter, hc]
      rw [List.filter_cons_of_neg (by simpa using hc), List.foldl_cons, henter, ih]
    · rw [List.filter_cons_of_pos (by simpa using hc), List.foldl_cons, List.foldl_cons, ih]

lemma foldl_components (here : List (List α)) (path : List α) :
    (components sep here path).foldl (enter dot) [] =
      resolve sep dot (here.foldl (enter dot) []) path := by
  rw [components, resolve]
  split_ifs with hroot
  · exact foldl_enter_names _ _
  · rw [List.foldl_append, names, foldl_enter_names]

lemma enter_plain {c : List α} (h : Plain sep dot c) (here : List (List α)) :
    enter dot here c = here ++ [c] := by
  rw [enter, if_neg h.ne_parent, if_neg]
  rintro (hc | hc)
  · exact h.ne_nil hc
  · exact h.ne_here hc

lemma foldl_enter_plain {cs : List (List α)} (h : ∀ c ∈ cs, Plain sep dot c)
    (here : List (List α)) : cs.foldl (enter dot) here = here ++ cs := by
  induction cs generalizing here with
  | nil => exact (List.append_nil here).symm
  | cons c cs ih =>
    rw [List.foldl_cons, enter_plain (h c List.mem_cons_self),
      ih (fun d hd => h d (List.mem_cons_of_mem c hd)), List.append_assoc]
    rfl

variable (dot) in
/-- How many levels above where it starts a path goes on its way, at most. -/
def climbs : List (List α) → ℕ
  | [] => 0
  | c :: cs =>
    if c = [dot, dot] then climbs cs + 1
    else if c = [] ∨ c = [dot] then climbs cs
    else climbs cs - 1

variable (dot) in
/-- The components that no later parent takes back. -/
def kept : List (List α) → List (List α)
  | [] => []
  | c :: cs =>
    if c = [dot, dot] ∨ (c = [] ∨ c = [dot]) ∨ climbs dot cs ≠ 0 then kept cs else c :: kept cs

/-- A path takes back as much of where it starts as it climbs, and leaves the rest as it is. -/
lemma foldl_enter_climbs (here cs : List (List α)) :
    cs.foldl (enter dot) here = here.take (here.length - climbs dot cs) ++ kept dot cs := by
  induction cs generalizing here with
  | nil => simp [climbs, kept]
  | cons c cs ih =>
    rw [List.foldl_cons, ih, enter, climbs, kept]
    by_cases hparent : c = [dot, dot]
    · rw [if_pos hparent, if_pos hparent, if_pos (.inl hparent), List.dropLast_eq_take,
        List.length_take, List.take_take]
      congr 2
      omega
    · by_cases hhere : c = [] ∨ c = [dot]
      · rw [if_neg hparent, if_neg hparent, if_pos hhere, if_pos hhere, if_pos (.inr (.inl hhere))]
      · rw [if_neg hparent, if_neg hparent, if_neg hhere, if_neg hhere]
        by_cases hclimb : climbs dot cs = 0
        · rw [hclimb, Nat.sub_zero, List.take_length, List.append_assoc]
          simp [hparent, hhere]
        · rw [if_pos (.inr (.inr hclimb)), List.length_append, List.length_singleton,
            List.take_append_of_le_length (by omega)]
          congr 2
          omega

lemma climbs_plain {cs : List (List α)} (h : ∀ c ∈ cs, Plain sep dot c) : climbs dot cs = 0 := by
  induction cs with
  | nil => rfl
  | cons c cs ih =>
    have hc := h c List.mem_cons_self
    rw [climbs, if_neg hc.ne_parent, if_neg (not_or.mpr ⟨hc.ne_nil, hc.ne_here⟩),
      ih fun d hd => h d (List.mem_cons_of_mem c hd)]

lemma foldl_enter_parent (n : ℕ) (here : List (List α)) :
    (List.replicate n [dot, dot]).foldl (enter dot) here = here.take (here.length - n) := by
  induction n generalizing here with
  | zero => simp
  | succ n ih =>
    rw [List.replicate_succ, List.foldl_cons, ih, enter, if_pos rfl, List.dropLast_eq_take,
      List.length_take, List.take_take]
    congr 1
    omega

lemma follow_relative (hdot : dot ≠ sep) (n : ℕ) {cs : List (List α)} (hcs : ∀ c ∈ cs, sep ∉ c)
    (here : List (List α)) : follow sep dot here (relative sep dot n cs) =
      cs.foldl (enter dot) (here.take (here.length - n)) := by
  rw [relative]
  split_ifs with hempty
  · obtain ⟨hn, rfl⟩ := List.append_eq_nil_iff.mp hempty
    obtain rfl : n = 0 := by simpa using hn
    have hsplit : [dot].splitOn sep = [[dot]] := by
      have hnot : ∀ c ∈ [[dot]], sep ∉ c := by simpa using hdot.symm
      simpa [List.intercalate] using List.splitOn_intercalate sep hnot (List.cons_ne_nil _ _)
    simp [follow, hsplit, enter]
  · have hall : ∀ c ∈ List.replicate n [dot, dot] ++ cs, sep ∉ c := by
      intro c hc
      rcases List.mem_append.mp hc with hc | hc
      · rw [List.eq_of_mem_replicate hc]
        simpa using hdot.symm
      · exact hcs c hc
    rw [follow, List.splitOn_intercalate sep hall hempty, List.foldl_append, foldl_enter_parent]

theorem resolve_relative (hdot : dot ≠ sep) (n : ℕ) {cs : List (List α)}
    (hcs : ∀ c ∈ cs, Plain sep dot c) (here : List (List α)) :
    resolve sep dot here (relative sep dot n cs) = here.take (here.length - n) ++ cs := by
  have hhead := head_relative hdot n fun c hc => ⟨(hcs c hc).ne_nil, (hcs c hc).sep_not_mem⟩
  have hfollow := follow_relative hdot n (fun c hc => (hcs c hc).sep_not_mem) here
  rw [resolve, if_neg hhead, ← foldl_enter_plain hcs, ← hfollow, follow]

end Metroskrew.Library.PathResolution
