import Metroskrew.Library.Buffer
import Metroskrew.Patch.Relpath

/-! `relpath` with each move of a pointer and each store checked, and its buffer as `malloc` gives
it. Sizes and the count of separators are numbers without a bound; `locate_int` says when an `int` is
enough. -/

namespace Metroskrew.Patch.RelpathMemory

open Metroskrew.Library.Buffer
open Relpath (advance advance_some advance_of_le)

/-- NULL, or a block of the size that is asked for with anything in it. -/
structure Malloc where
  block : ℕ → Option (List UInt8)
  length_block : ∀ size b, block size = some b → b.length = size

/-- `p[l] == '\0'` -/
def endsAt (p : CString) (l : ℕ) : Option Bool := (advance p l).map fun rest => rest = []

variable (sep : UInt8) (sepParent : CString)

variable {sep} in
lemma strchr_next_lt {p next c : CString} (hnext : advance p 1 = some next)
    (hc : strchr next sep = some c) : c.length < p.length := by
  obtain ⟨hle, rfl⟩ := advance_some hnext
  have hlen := (strchr_some hc).1.length_le
  rw [List.length_drop] at hlen
  omega

def stripLoop (dstP cwdP : CString) : Option (CString × CString) :=
  if dstP.head? ≠ some sep then some (dstP, cwdP)
  else
    match _ : advance dstP 1 with
    | none => none
    | some next =>
      match _ : strchr next sep with
      | none => some (dstP, cwdP)
      | some c =>
        let l := dstP.length - c.length
        if dstP.take l ≠ cwdP.take l then some (dstP, cwdP)
        else
          match _ : advance dstP l with
          | none => none
          | some dstP =>
            match advance cwdP l with
            | none => none
            | some cwdP => stripLoop dstP cwdP
termination_by dstP.length
decreasing_by
  have hlt := strchr_next_lt (by assumption) (by assumption)
  obtain ⟨hle, rfl⟩ := advance_some (by assumption)
  rw [List.length_drop]
  omega

def stripFinal (dstP cwdP : CString) : Option (CString × CString) :=
  if cwdP.head? = some sep then do
    let next ← advance cwdP 1
    let c := (strchr next sep).getD []
    let l := cwdP.length - c.length
    if dstP.take l = cwdP.take l then
      if (← endsAt dstP l) = true then
        let dstP ← advance dstP l
        let cwdP ← advance cwdP l
        some (dstP, cwdP)
      else some (dstP, cwdP)
    else some (dstP, cwdP)
  else some (dstP, cwdP)

def countSeps (cwdP : CString) : Option ℕ :=
  match _ : strchr cwdP sep with
  | none => some 0
  | some c =>
    match _ : advance c 1 with
    | none => none
    | some cwdP => (countSeps cwdP).map (· + 1)
termination_by cwdP.length
decreasing_by
  have hlen := (strchr_some (by assumption)).1.length_le
  obtain ⟨hle, rfl⟩ := advance_some (by assumption)
  rw [List.length_drop]
  omega

/-- `if (*dst_p == sep) dst_p++` -/
def skipSep (dstP : CString) : Option CString :=
  if dstP.head? = some sep then advance dstP 1 else some dstP

/-- The number of `../`, and where in `dst` the rest is. -/
def locate (dstP cwdP : CString) : Option (ℕ × CString) := do
  let (dstP, cwdP) ← stripLoop sep dstP cwdP
  let dstP := if dstP = [] then ascii "." else dstP
  let (dstP, cwdP) ← stripFinal sep dstP cwdP
  if dstP = [] ∨ dstP.head? = some sep then
    let dstP ← skipSep sep dstP
    let p ← countSeps sep cwdP
    some (p, if dstP = [] ∧ p = 0 then ascii "." else dstP)
  else some (0, dstP)

/-- `dst_p_len` -/
def restLen (dstP : CString) : ℕ := if dstP.length ≠ 0 then dstP.length + 1 else dstP.length

/-- `if (!dst_p_len) dst_m[3 * p - 1] = '\0'` -/
def endParents (p : ℕ) (dstP : CString) (dstM : List UInt8) : Option (List UInt8) :=
  if restLen dstP = 0 then store dstM (3 * p - 1) 0 else some dstM

def fill (p : ℕ) (dstP : CString) (dstM : List UInt8) : Option (List UInt8) := do
  let dstM ← (List.range p).foldlM (fun dstM (i : ℕ) => copy sepParent (3 * i) dstM) dstM
  let dstM ← endParents p dstP dstM
  copy ((dstP ++ [0]).take (restLen dstP)) (3 * p) dstM

variable (malloc : Malloc)

/-- The inner `none` is NULL. -/
def relpathFrom (dstP cwdP : CString) : Option (Option (List UInt8)) := do
  let (p, dstP) ← locate sep dstP cwdP
  match malloc.block (3 * p + restLen dstP) with
  | none => some none
  | some dstM =>
    let dstM ← fill sepParent p dstP dstM
    some (some dstM)

def relpath (cwd dst : CString) : Option (Option (List UInt8)) :=
  relpathFrom 0x2f (ascii "../") malloc dst cwd

variable {sep sepParent}

lemma advance_one {p : CString} (h : p.head? = some sep) : advance p 1 = some p.tail := by
  cases p with
  | nil => cases h
  | cons c p => exact advance_of_le (by simp)

lemma stripLoop_found {d w c : CString} (hd : d.head? = some sep) (hc : strchr d.tail sep = some c) :
    stripLoop sep d w =
      if d.take (d.length - c.length) ≠ w.take (d.length - c.length) then some (d, w)
      else (advance w (d.length - c.length)).bind (stripLoop sep (d.drop (d.length - c.length))) := by
  rw [stripLoop, if_neg (not_not.mpr hd), advance_one hd]
  dsimp only
  split
  · rename_i hnone
    rw [hc] at hnone
    cases hnone
  · rename_i c' hc'
    obtain rfl := Option.some.inj (hc.symm.trans hc')
    rw [advance_of_le (show d.length - c.length ≤ d.length from Nat.sub_le _ _)]
    cases advance w (d.length - c.length) <;> rfl

/-- The moves the plain model leaves unchecked stay in their strings. -/
lemma stripLoop_eq (d w : CString) : stripLoop sep d w = Relpath.stripLoop sep d w := by
  fun_induction Relpath.stripLoop sep d w with
  | case1 d w hd => rw [stripLoop, if_pos hd]
  | case2 d w hd hnone =>
    rw [stripLoop, if_neg hd, advance_one (not_not.mp hd)]
    dsimp only
    split
    · rfl
    · rename_i c hc
      rw [hnone] at hc
      cases hc
  | case3 d w hd c hc l hl => rw [stripLoop_found (not_not.mp hd) hc, if_pos hl]
  | case4 d w hd c hc l hl hadvance =>
    rw [stripLoop_found (not_not.mp hd) hc, if_neg hl, hadvance, Option.bind_none]
  | case5 d w hd c hc l hl w' hadvance ih =>
    rw [stripLoop_found (not_not.mp hd) hc, if_neg hl, hadvance, Option.bind_some]
    exact ih

lemma stripFinal_eq (d w : CString) : stripFinal sep d w = Relpath.stripFinal sep d w := by
  have hle : w.length - ((strchr w.tail sep).getD []).length ≤ w.length := Nat.sub_le _ _
  rw [stripFinal, Relpath.stripFinal]
  by_cases hw : w.head? = some sep
  · rw [if_pos hw, if_pos hw, advance_one hw]
    simp only [bind, Option.bind_some]
    generalize w.length - ((strchr w.tail sep).getD []).length = l at hle ⊢
    by_cases hmatch : d.take l = w.take l
    · have hl : l ≤ d.length := by
        have hlen := congrArg List.length hmatch
        simp only [List.length_take] at hlen
        omega
      rw [if_pos hmatch, endsAt, advance_of_le hl, Option.map_some, Option.bind_some]
      by_cases hend : d.drop l = []
      · simp [hend, hmatch]
      · simp [hend]
    · rw [if_neg hmatch, if_neg fun h => hmatch h.1]
  · rw [if_neg hw, if_neg hw]

lemma count_found {w c : CString} (hc : strchr w sep = some c) :
    w.count sep = c.tail.count sep + 1 := by
  obtain ⟨before, after, rfl, rfl, hbefore⟩ := strchr_split hc
  rw [List.count_append, List.count_eq_zero_of_not_mem hbefore]
  simp

lemma countSeps_eq (w : CString) : countSeps sep w = some (w.count sep) := by
  fun_induction countSeps sep w with
  | case1 w hnone => rw [List.count_eq_zero_of_not_mem (strchr_none hnone)]
  | case2 w c hc hadvance =>
    rw [advance_one (strchr_some hc).2] at hadvance
    cases hadvance
  | case3 w c hc w' hadvance ih =>
    rw [advance_one (strchr_some hc).2] at hadvance
    obtain rfl := Option.some.inj hadvance
    rw [ih, count_found hc, Option.map_some]

lemma plain_countSeps (w : CString) : Relpath.countSeps sep w = w.count sep := by
  fun_induction Relpath.countSeps sep w with
  | case1 w hnone => exact (List.count_eq_zero_of_not_mem (strchr_none hnone)).symm
  | case2 w c hc ih => rw [ih, count_found hc]

/-- The plain model is this one with the string written down at once. -/
lemma relpathFrom_locate (d w : CString) :
    Relpath.relpathFrom sep sepParent d w =
      (locate sep d w).bind fun found => Relpath.buildRel sepParent found.1 found.2 := by
  rw [locate, Relpath.relpathFrom, stripLoop_eq]
  obtain ⟨d₁, w₁, hloop, -, -⟩ := Relpath.stripLoop_total sep d w
  simp only [bind, hloop, Option.bind_some, stripFinal_eq]
  obtain ⟨d₂, w₂, hfinal, -, -⟩ :=
    Relpath.stripFinal_total sep (if d₁ = [] then ascii "." else d₁) w₁
  simp only [hfinal, Option.bind_some, countSeps_eq, plain_countSeps]
  by_cases hsep : d₂.head? = some sep
  · simp [hsep, skipSep, advance_one hsep]
  · by_cases hnil : d₂ = []
    · simp [skipSep, hnil]
    · simp [hsep, hnil]

def Rest (dst rest : CString) : Prop := rest <:+ dst ∨ rest = ascii "."

lemma Rest.later {dst rest s : CString} (h : Rest dst rest) (hs : s <:+ rest) : Rest dst s := by
  rcases h with h | rfl
  · exact .inl (hs.trans h)
  · rcases List.suffix_cons_iff.mp hs with hdot | hnil
    · exact .inr hdot
    · rw [List.suffix_nil.mp hnil]
      exact .inl (List.nil_suffix)

lemma skipSep_total (d : CString) : ∃ d', skipSep sep d = some d' ∧ d' <:+ d := by
  rw [skipSep]
  split_ifs with hsep
  · exact ⟨d.tail, advance_one hsep, List.tail_suffix d⟩
  · exact ⟨d, rfl, List.suffix_rfl⟩

variable (sep) in
lemma locate_total (d w : CString) :
    ∃ p rest, locate sep d w = some (p, rest) ∧ Rest d rest ∧ (rest = [] → 1 ≤ p) ∧
      p ≤ w.count sep := by
  obtain ⟨d₁, w₁, hloop, hd₁, hw₁⟩ := Relpath.stripLoop_total sep d w
  obtain ⟨d₂, w₂, hfinal, hd₂, hw₂⟩ :=
    Relpath.stripFinal_total sep (if d₁ = [] then ascii "." else d₁) w₁
  have hrest : Rest d d₂ := by
    refine Rest.later ?_ hd₂
    split_ifs
    · exact .inr rfl
    · exact .inl hd₁
  have hcount : w₂.count sep ≤ w.count sep := (hw₂.trans hw₁).sublist.count_le sep
  have hdot : ascii "." ≠ [] := by decide
  rw [locate]
  simp only [bind, stripLoop_eq, hloop, Option.bind_some, stripFinal_eq, hfinal]
  by_cases hbelow : d₂ = [] ∨ d₂.head? = some sep
  · obtain ⟨d₃, hd₃, hsuffix⟩ := skipSep_total d₂
    rw [if_pos hbelow, hd₃, Option.bind_some, countSeps_eq, Option.bind_some]
    refine ⟨w₂.count sep, _, rfl, ?_, ?_, hcount⟩
    · split_ifs
      · exact .inr rfl
      · exact hrest.later hsuffix
    · intro hnil
      split_ifs at hnil with hzero
      · exact absurd hnil hdot
      · exact Nat.one_le_iff_ne_zero.mpr fun h => hzero ⟨hnil, h⟩
  · rw [if_neg hbelow]
    exact ⟨0, d₂, rfl, hrest, fun hnil => absurd (.inl hnil) hbelow, Nat.zero_le _⟩

def text (sepParent : CString) (p : ℕ) (rest : CString) : CString :=
  if rest = [] then (List.replicate p sepParent).flatten.dropLast
  else (List.replicate p sepParent).flatten ++ rest

lemma length_parents (hparent : sepParent.length = 3) (p : ℕ) :
    (List.replicate p sepParent).flatten.length = 3 * p := by
  simp [hparent, mul_comm]

lemma fill_eq (hparent : sepParent.length = 3) {p : ℕ} {rest : CString} (hp : rest = [] → 1 ≤ p)
    {block : List UInt8} (hlen : block.length = 3 * p + restLen rest) :
    fill sepParent p rest block = some (text sepParent p rest ++ [0]) := by
  have hback : (block.take (3 * p)).length = sepParent.length * p := by
    rw [List.length_take, hlen, hparent]
    omega
  have htimes := copy_times (block.drop (3 * p)) p hback
  rw [List.take_append_drop, hparent] at htimes
  have hparents := length_parents hparent p
  rw [fill]
  simp only [Nat.cast_ofNat] at htimes
  rw [htimes, Option.bind_eq_bind, Option.bind_some, text]
  by_cases hrest : rest = []
  · subst hrest
    have hnil : block.drop (3 * p) = [] := List.drop_eq_nil_of_le (by rw [hlen]; rfl)
    have hone := hp rfl
    obtain ⟨front, o, hfront⟩ : ∃ front o, (List.replicate p sepParent).flatten = front ++ [o] := by
      apply (List.eq_nil_or_concat' _).resolve_left
      intro h
      rw [h, List.length_nil] at hparents
      omega
    have hlast : (3 * (p : ℤ) - 1) = front.length := by
      rw [hfront, List.length_append, List.length_singleton] at hparents
      omega
    rw [hnil, if_pos rfl, hfront, endParents,
      if_pos (show restLen [] = 0 from rfl), hlast, List.append_nil, store_between,
      Option.bind_some, List.dropLast_concat]
    rfl
  · have hsize : restLen rest = rest.length + 1 := by
      simp [restLen, hrest]
    rw [if_neg hrest, endParents, if_neg (by omega), Option.bind_some, hsize,
      List.take_of_length_le (by simp)]
    have hold : (block.drop (3 * p)).length = (rest ++ [0]).length := by simp [hlen, hsize]
    have hcopy := copy_between (List.replicate p sepParent).flatten [] hold
    rw [hparents, List.append_nil, List.append_nil, ← List.append_assoc] at hcopy
    exact_mod_cast hcopy

lemma buildRel_text {p : ℕ} {rest : CString} (hp : rest = [] → 1 ≤ p) :
    Relpath.buildRel sepParent p rest = some (text sepParent p rest) := by
  rw [Relpath.buildRel, text]
  by_cases hrest : rest = []
  · rw [if_pos hrest, if_pos hrest, if_neg (Nat.one_le_iff_ne_zero.mp (hp hrest))]
  · rw [if_neg hrest, if_neg hrest]

lemma length_text (hparent : sepParent.length = 3) {p : ℕ} {rest : CString}
    (hp : rest = [] → 1 ≤ p) : (text sepParent p rest).length + 1 = 3 * p + restLen rest := by
  have hparents := length_parents hparent p
  rw [text, restLen]
  by_cases hrest : rest = []
  · have hone := hp hrest
    subst hrest
    rw [if_pos rfl, if_neg (by simp), List.length_dropLast, hparents, List.length_nil]
    omega
  · rw [if_neg hrest, if_pos (by simpa using hrest), List.length_append, hparents, Nat.add_assoc]

lemma text_ne_nil (hparent : sepParent.length = 3) {p : ℕ} {rest : CString} (hp : rest = [] → 1 ≤ p) :
    text sepParent p rest ≠ [] := by
  intro hnil
  have hlen := length_text hparent hp
  rw [hnil, List.length_nil, restLen] at hlen
  split_ifs at hlen with hrest
  · omega
  · have hone := hp (List.eq_nil_of_length_eq_zero (not_not.mp hrest))
    omega

lemma mem_text {p : ℕ} {rest : CString} {c : UInt8} (hc : c ∈ text sepParent p rest) :
    c ∈ sepParent ∨ c ∈ rest := by
  have hparents : ∀ c ∈ (List.replicate p sepParent).flatten, c ∈ sepParent := by
    intro c hc
    obtain ⟨l, hl, hc⟩ := List.mem_flatten.mp hc
    rwa [List.eq_of_mem_replicate hl] at hc
  rw [text] at hc
  split_ifs at hc
  · exact .inl (hparents c (List.mem_of_mem_dropLast hc))
  · exact (List.mem_append.mp hc).imp_left (hparents c)

lemma Rest.mem {dst rest : CString} (h : Rest dst rest) {c : UInt8} (hc : c ∈ rest) :
    c ∈ dst ∨ c = 0x2e := by
  rcases h with h | rfl
  · exact .inl (h.subset hc)
  · exact .inr (by simpa [ascii] using hc)

lemma mem_relpath {dst rest : CString} (hrest : Rest dst rest) {p : ℕ} {c : UInt8}
    (hc : c ∈ text (ascii "../") p rest) : c ∈ dst ∨ c = 0x2e ∨ c = 0x2f := by
  rcases mem_text hc with hparent | hmem
  · right
    simpa [ascii] using hparent
  · exact (hrest.mem hmem).imp_right .inl

lemma relpath_located (cwd dst : CString) :
    ∃ p rest, locate 0x2f dst cwd = some (p, rest) ∧ Rest dst rest ∧ (rest = [] → 1 ≤ p) ∧
      p ≤ cwd.count 0x2f ∧ Patch.relpath cwd dst = some (text (ascii "../") p rest) := by
  obtain ⟨p, rest, hlocate, hrest, hp, hcount⟩ := locate_total 0x2f dst cwd
  refine ⟨p, rest, hlocate, hrest, hp, hcount, ?_⟩
  rw [Patch.relpath, relpathFrom_locate, hlocate, Option.bind_some, buildRel_text hp]

theorem relpath_total (cwd dst : CString) :
    ∃ r, Patch.relpath cwd dst = some r ∧ r ≠ [] ∧ ∀ c ∈ r, c ∈ dst ∨ c = 0x2e ∨ c = 0x2f := by
  obtain ⟨p, rest, -, hrest, hp, -, hplain⟩ := relpath_located cwd dst
  exact ⟨_, hplain, text_ne_nil rfl hp, fun c hc => mem_relpath hrest hc⟩

/-- The string in the block is the one of the plain model, and fills it. -/
theorem relpath_memory (malloc : Malloc) (cwd dst : CString) :
    ∃ p rest, p ≤ cwd.count 0x2f ∧ Rest dst rest ∧ (rest = [] → 1 ≤ p) ∧
      let size := 3 * p + restLen rest
      let text := text (ascii "../") p rest
      relpath malloc cwd dst = some ((malloc.block size).map fun _ => text ++ [0]) ∧
        (text ++ [0]).length = size ∧ text ≠ [] ∧ (0 ∉ dst → 0 ∉ text) ∧
        Patch.relpath cwd dst = some text := by
  have hparent : (ascii "../").length = 3 := rfl
  obtain ⟨p, rest, hlocate, hrest, hp, hcount, hplain⟩ := relpath_located cwd dst
  refine ⟨p, rest, hcount, hrest, hp, ?_, ?_, text_ne_nil hparent hp, ?_, hplain⟩
  · rw [relpath, relpathFrom, hlocate, Option.bind_eq_bind, Option.bind_some]
    cases hblock : malloc.block (3 * p + restLen rest) with
    | none => simp [hblock]
    | some block =>
      have hfill := fill_eq hparent hp (malloc.length_block _ _ hblock)
      simp [hblock, hfill]
  · rw [List.length_append, List.length_singleton, length_text hparent hp]
  · intro hnul hzero
    rcases mem_relpath hrest hzero with hdst | hdot | hslash
    · exact hnul hdst
    · exact absurd hdot (by decide)
    · exact absurd hslash (by decide)

/-- `3 * p` fits an `int` for a working directory of up to 715827882 separators. -/
theorem locate_int {cwd dst rest : CString} {p : ℕ} (hcwd : cwd.count 0x2f ≤ 715827882)
    (hlocate : locate 0x2f dst cwd = some (p, rest)) : 3 * p < 2 ^ 31 := by
  obtain ⟨p', rest', hlocate', -, -, hcount, -⟩ := relpath_located cwd dst
  obtain ⟨rfl, rfl⟩ := Prod.mk.inj (Option.some.inj (hlocate'.symm.trans hlocate))
  omega

/-- The block for `/a` seen from `/a/b` holds `..` alone. -/
example : relpath ⟨fun size => some (List.replicate size 0xaa), by simp⟩ (ascii "/a/b") (ascii "/a") =
    some (some (ascii ".." ++ [0])) := by decide +kernel

end Metroskrew.Patch.RelpathMemory
