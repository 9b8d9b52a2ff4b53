import Metroskrew.Bytes

/-! `relpath`: the name of a file as seen from the working directory. A pointer into a string is the
rest of the string there; moving one past the end, or storing before the buffer, has no result. -/

namespace Metroskrew.Patch.Relpath

def advance (p : CString) (l : ℕ) : Option CString := if l ≤ p.length then some (p.drop l) else none

variable (sep : UInt8) (sepParent : CString)

def stripLoop (dstP cwdP : CString) : Option (CString × CString) :=
  if dstP.head? ≠ some sep then some (dstP, cwdP)
  else
    match _ : strchr dstP.tail sep with
    | none => some (dstP, cwdP)
    | some c =>
      let l := dstP.length - c.length
      if dstP.take l ≠ cwdP.take l then some (dstP, cwdP)
      else
        match advance cwdP l with
        | none => none
        | some cwdP => stripLoop (dstP.drop l) cwdP
termination_by dstP.length
decreasing_by
  have hc := (strchr_some (by assumption)).1.length_le
  have hd : dstP ≠ [] := by
    rintro rfl
    contradiction
  have := List.length_pos_of_ne_nil hd
  rw [List.length_tail] at hc
  rw [List.length_drop]
  omega

def stripFinal (dstP cwdP : CString) : Option (CString × CString) :=
  if cwdP.head? = some sep then
    let c := (strchr cwdP.tail sep).getD []
    let l := cwdP.length - c.length
    if dstP.take l = cwdP.take l ∧ dstP.drop l = [] then do
      let dstP ← advance dstP l
      let cwdP ← advance cwdP l
      some (dstP, cwdP)
    else some (dstP, cwdP)
  else some (dstP, cwdP)

def countSeps (cwdP : CString) : ℕ :=
  match _ : strchr cwdP sep with
  | none => 0
  | some c => countSeps c.tail + 1
termination_by cwdP.length
decreasing_by exact strchr_tail_lt (by assumption)

/-- Build the final string; the last separator gives way to the terminator. -/
def buildRel (p : ℕ) (dstP : CString) : Option CString :=
  let parents := (List.replicate p sepParent).flatten
  if dstP = [] then (if p = 0 then none else some parents.dropLast) else some (parents ++ dstP)

def relpathFrom (dstP cwdP : CString) : Option CString := do
  let (dstP, cwdP) ← stripLoop sep dstP cwdP
  let dstP := if dstP = [] then ascii "." else dstP
  let (dstP, cwdP) ← stripFinal sep dstP cwdP
  let below := dstP = [] ∨ dstP.head? = some sep
  let p := if below then countSeps sep cwdP else 0
  let dstP := if dstP.head? = some sep then dstP.tail else dstP
  let dstP := if dstP = [] ∧ p = 0 then ascii "." else dstP
  buildRel sepParent p dstP

lemma advance_of_le {s : CString} {l : ℕ} (h : l ≤ s.length) : advance s l = some (s.drop l) :=
  if_pos h

lemma advance_some {s t : CString} {l : ℕ} (h : advance s l = some t) : l ≤ s.length ∧ t = s.drop l := by
  rw [advance] at h
  split_ifs at h with hle
  exact ⟨hle, (Option.some.inj h).symm⟩

lemma stripLoop_total (d w : CString) :
    ∃ d' w', stripLoop sep d w = some (d', w') ∧ d' <:+ d ∧ w' <:+ w := by
  fun_induction stripLoop sep d w with
  | case1 d w hd => exact ⟨d, w, rfl, List.suffix_rfl, List.suffix_rfl⟩
  | case2 d w hd hnone => exact ⟨d, w, rfl, List.suffix_rfl, List.suffix_rfl⟩
  | case3 d w hd c hc l hl => exact ⟨d, w, rfl, List.suffix_rfl, List.suffix_rfl⟩
  | case4 d w hd c hc l hl hadvance =>
    have hlen := congrArg List.length (not_not.mp hl)
    rw [advance] at hadvance
    split_ifs at hadvance with hle
    simp only [List.length_take] at hlen
    omega
  | case5 d w hd c hc l hl w' hadvance ih =>
    obtain ⟨d', w'', hloop, hdst, hcwd⟩ := ih
    obtain ⟨_, rfl⟩ := advance_some hadvance
    exact ⟨d', w'', hloop, hdst.trans (List.drop_suffix l d), hcwd.trans (List.drop_suffix l w)⟩

lemma stripFinal_total (d w : CString) :
    ∃ d' w', stripFinal sep d w = some (d', w') ∧ d' <:+ d ∧ w' <:+ w := by
  have hle : w.length - ((strchr w.tail sep).getD []).length ≤ w.length := Nat.sub_le _ _
  rw [stripFinal]
  split_ifs with hw
  · dsimp only
    generalize w.length - ((strchr w.tail sep).getD []).length = l at hle ⊢
    split_ifs with hmatch
    · have hlen := congrArg List.length hmatch.1
      simp only [List.length_take] at hlen
      rw [advance_of_le (show l ≤ d.length by omega), advance_of_le (show l ≤ w.length by omega)]
      exact ⟨d.drop l, w.drop l, rfl, List.drop_suffix l d, List.drop_suffix l w⟩
    · exact ⟨d, w, rfl, List.suffix_rfl, List.suffix_rfl⟩
  · exact ⟨d, w, rfl, List.suffix_rfl, List.suffix_rfl⟩

end Relpath

def relpath (cwd dst : CString) : Option CString :=
  Relpath.relpathFrom 0x2f (ascii "../") dst cwd

end Metroskrew.Patch
