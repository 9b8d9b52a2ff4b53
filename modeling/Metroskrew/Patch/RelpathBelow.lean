import Metroskrew.Patch.RelpathNames

/-! A file below the working directory keeps the name it has there, byte for byte. -/

namespace Metroskrew.Patch.Relpath

variable {sep : UInt8} {sepParent : CString}

lemma cons_split {w : CString} (h : w.head? = some sep) :
    (∃ y, w = sep :: y ∧ sep ∉ y) ∨ ∃ y t, w = sep :: (y ++ sep :: t) ∧ sep ∉ y := by
  cases w with
  | nil => cases h
  | cons c w =>
    obtain rfl : c = sep := Option.some.inj h
    by_cases hmem : c ∈ w
    · obtain ⟨y, t, rfl, hy⟩ := List.eq_append_cons_of_mem hmem
      exact .inr ⟨y, t, rfl, hy⟩
    · exact .inl ⟨w, rfl, hmem⟩

lemma stripLoop_used (rel : CString) : stripLoop sep (sep :: rel) [] = some (sep :: rel, []) := by
  rcases cons_split (show (sep :: rel).head? = some sep from rfl) with ⟨y, hrel, hy⟩ | ⟨y, t, hrel, hy⟩
  · rw [hrel, stripLoop_last hy]
  · rw [hrel, stripLoop_cons hy, if_neg (by simp)]

/-- While there is some of it left, the directory is what the path begins with. -/
lemma stripLoop_below (rel w : CString) (hw : w = [] ∨ w.head? = some sep) :
    stripLoop sep (w ++ sep :: rel) w = some (sep :: rel, []) := by
  induction hlen : w.length using Nat.strong_induction_on generalizing w with
  | h n ih =>
    rcases hw with rfl | hw
    · exact stripLoop_used rel
    rcases cons_split hw with ⟨y, rfl, hy⟩ | ⟨y, t, rfl, hy⟩
    · rw [List.cons_append, stripLoop_cons hy, if_pos (by simp)]
      simpa using stripLoop_used rel
    · have htail : (sep :: t).length < n := by
        rw [← hlen]
        simp only [List.length_cons, List.length_append]
        omega
      have hstep : (sep :: (y ++ sep :: t)) ++ sep :: rel = sep :: (y ++ sep :: (t ++ sep :: rel)) := by
        simp
      rw [hstep, stripLoop_cons hy, if_pos (by simp)]
      simpa using ih _ htail (sep :: t) (.inr rfl) rfl

lemma relpathFrom_rest {d w rel : CString} (hrel : rel ≠ [])
    (hloop : stripLoop sep d w = some (sep :: rel, [])) :
    relpathFrom sep sepParent d w = some rel := by
  have hfinal : stripFinal sep (sep :: rel) [] = some (sep :: rel, []) := stripFinal_none (by simp) _
  have hcount : countSeps sep [] = 0 := by
    rw [countSeps]
    rfl
  simp [relpathFrom, hloop, hfinal, hcount, hrel, buildRel]

lemma relpathFrom_under {w rel : CString} (hw : w.head? = some sep) (hrel : rel ≠ []) :
    relpathFrom sep sepParent (w ++ sep :: rel) w = some rel :=
  relpathFrom_rest hrel (stripLoop_below rel w (.inr hw))

theorem relpath_below (cwd rel : CString) (hcwd : cwd.head? = some 0x2f) (hrel : rel ≠ []) :
    relpath cwd (cwd ++ 0x2f :: rel) = some rel :=
  relpathFrom_under hcwd hrel

theorem relpath_below_root :
    relpath (ascii "/") (ascii "/" ++ 0x2f :: ascii "inc//../x.h") = some (ascii "inc//../x.h") :=
  relpath_below (ascii "/") (ascii "inc//../x.h") (by decide) (by decide)

end Metroskrew.Patch.Relpath
