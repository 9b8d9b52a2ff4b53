import Metroskrew.Bytes

/-! Paths of the target program as unix ones. -/

namespace Metroskrew.Dlls

def pathHasDrv : CString → Bool
  | c :: d :: e :: _ => 0x41 ≤ c ∧ c ≤ 0x5a ∧ d = 0x3a ∧ e = 0x5c
  | _ => false

/-- `for (char *c = s; (c = strchr(c, '\\')); c++) *c = '/';` -/
def slashLoop (s : CString) : CString :=
  match _ : strchr s 0x5c with
  | none => s
  | some c => s.take (s.length - c.length) ++ 0x2f :: slashLoop c.tail
termination_by s.length
decreasing_by exact strchr_tail_lt (by assumption)

def pathDupUnx (path : CString) : CString :=
  let o := if pathHasDrv path then path.drop 2 else path
  slashLoop o

def slash (c : UInt8) : UInt8 := if c = 0x5c then 0x2f else c

lemma map_slash {s : CString} (hs : 0x5c ∉ s) : s.map slash = s := by
  calc s.map slash = s.map id :=
        List.map_congr_left fun c hc => if_neg (ne_of_mem_of_not_mem hc hs)
    _ = s := List.map_id s

lemma slashLoop_eq (s : CString) : slashLoop s = s.map slash := by
  fun_induction slashLoop s with
  | case1 s hnone => exact (map_slash (strchr_none hnone)).symm
  | case2 s c hsome ih =>
    obtain ⟨before, after, rfl, rfl, hbefore⟩ := strchr_split hsome
    rw [ih, List.map_append, map_slash hbefore, List.length_append, Nat.add_sub_cancel,
      List.take_left', List.map_cons, List.tail_cons]
    · rfl
    · rfl

end Metroskrew.Dlls
