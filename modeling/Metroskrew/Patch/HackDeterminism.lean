import Metroskrew.Patch.HackReplay

/-! With enough digits in SKREW_HACK01, a call does not depend on what the allocated memory holds. -/

namespace Metroskrew.Patch

variable {n : ℕ}

def uninitRows (g : Globals n) : List (Fin n) :=
  (List.finRange n).filter fun y => ¬ g.Initialised y

lemma uninitWords_length (g : Globals n) (mem : Heap n) :
    (uninitWords (initRows g mem).2).length = wordlen n * (uninitRows g).length := by
  rw [uninitWords, uninitRows]
  induction List.finRange n with
  | nil => rfl
  | cons y ys ih =>
    rw [List.flatMap_cons, List.length_append, ih, List.filter_cons]
    by_cases hy : (initRows g mem).2 y = true
    · simp [hy, (init_iff g mem y).mp hy]
    · simp [hy, mt (init_iff g mem y).mpr hy]
      ring

lemma initRows_congr (g : Globals n) (mem mem' : Heap n) {y : Fin n} (hy : g.Initialised y) :
    (initRows g mem).1 y = (initRows g mem').1 y := by
  rw [initRows, initRows, (foldl_listStep _ _ y).1, (foldl_listStep _ _ y).1]
  by_cases hlisted : y ∈ g.listed
  · rw [if_pos hlisted, if_pos hlisted]
  · obtain rfl := hy.resolve_right hlisted
    simp [entryRow, bitarrSet_eq]

lemma foldl_restore_congr {ws : List (Fin n × Fin (wordlen n))} {rows rows' : Rows n} {s : CString}
    (hdigits : ws ≠ [] → 8 * (ws.length - 1) < (nibbles s).length)
    (hrows : ∀ w ∉ ws, rows w.1 w.2 = rows' w.1 w.2) :
    (ws.foldl restoreWord (rows, s)).1 = (ws.foldl restoreWord (rows', s)).1 := by
  induction ws generalizing rows rows' s with
  | nil =>
    funext y x
    exact hrows (y, x) List.not_mem_nil
  | cons w ws ih =>
    have hlen := hdigits (List.cons_ne_nil w ws)
    have hne : nibbles s ≠ [] := by
      intro h
      simp [h] at hlen
    rw [List.foldl_cons, List.foldl_cons, restoreWord_some hne, restoreWord_some hne]
    apply ih
    · intro hws
      have hpos := List.length_pos_of_ne_nil hws
      rw [(readWord_nibbles s).2, List.length_drop]
      rw [List.length_cons] at hlen
      omega
    · intro u hu
      by_cases huw : u = w
      · rw [huw, setEntry_self, setEntry_self]
      · rw [setEntry_of_ne _ _ huw, setEntry_of_ne _ _ huw]
        exact hrows u fun hmem => (List.mem_cons.mp hmem).elim huw hu

lemma length_nibbles (s : CString) :
    (s.filter fun c => (hexValue c).isSome).length = (nibbles s).length := by
  rw [nibbles, List.length_filterMap_eq_countP, List.countP_eq_length_filter]

/-- Two passes over the same rows, whatever the scratch rows held. -/
structure Agree (st st' : PassState n) : Prop where
  rows : st.rows = st'.rows
  cont : st.cont = st'.cont

variable (g : Globals n)

lemma visitSlot_agree {st st' : PassState n} (h : Agree st st') (i : Fin n) :
    Option.Rel Agree (visitSlot g st i) (visitSlot g st' i) := by
  rw [visitSlot, visitSlot]
  cases g.slots i with
  | none => exact .some h
  | some cur1 =>
    by_cases hentry : cur1.unk1c = g.entry
    · simpa [hentry] using Option.Rel.some h
    · simp only [if_neg hentry]
      cases cur1.preds with
      | nil => exact .none
      | cons p ps =>
        simp only [bitarrCpy_eq, h.rows, h.cont]
        exact .some ⟨rfl, rfl⟩

lemma foldlM_agree (is : List (Fin n)) {st st' : PassState n} (h : Agree st st') :
    Option.Rel Agree (is.foldlM (visitSlot g) st) (is.foldlM (visitSlot g) st') := by
  induction is generalizing st st' with
  | nil => exact .some h
  | cons i is ih =>
    rw [List.foldlM_cons, List.foldlM_cons]
    have hslot := visitSlot_agree g h i
    generalize visitSlot g st i = next at hslot ⊢
    generalize visitSlot g st' i = next' at hslot ⊢
    cases hslot with
    | some hnext => exact ih hnext
    | none => exact .none

lemma fixLoop_curbits (fuel : ℕ) (rows : Rows n) (curbits curbits' : Row n) :
    fixLoop g fuel rows curbits = fixLoop g fuel rows curbits' := by
  induction fuel generalizing rows curbits curbits' with
  | zero => rfl
  | succ fuel ih =>
    have hpass : Option.Rel Agree (pass g rows curbits) (pass g rows curbits') :=
      foldlM_agree g (List.finRange n) ⟨rfl, rfl⟩
    rw [fixLoop, fixLoop]
    generalize pass g rows curbits = st at hpass ⊢
    generalize pass g rows curbits' = st' at hpass ⊢
    cases hpass with
    | @some st st' h =>
      simp only [bind, Option.bind_some, h.rows, h.cont]
      rw [ih st'.rows st.curbits st'.curbits]
    | none => rfl

theorem hack_deterministic (fun004f8b60 : Globals n → Globals n) (hackChk : Bool)
    (hackData : Option CString) (g : Globals n) (mem mem' : Heap n)
    (hdigits : 0 < wordlen n * (uninitRows g).length → ∃ s, hackData = some s ∧
      8 * (wordlen n * (uninitRows g).length - 1) <
        (s.filter fun c => (hexValue c).isSome).length) :
    (prelude hackChk hackData g mem).rows = (prelude hackChk hackData g mem').rows ∧
      ∀ fuel, fun00505340 fun004f8b60 fuel hackChk hackData g mem =
        fun00505340 fun004f8b60 fuel hackChk hackData g mem' := by
  have hrows : (prelude hackChk hackData g mem).rows = (prelude hackChk hackData g mem').rows := by
    have hinit : (initRows g mem).2 = (initRows g mem').2 := by
      funext y
      rw [Bool.eq_iff_iff, init_iff, init_iff]
    have hout : ∀ w ∉ uninitWords (initRows g mem).2,
        (initRows g mem).1 w.1 w.2 = (initRows g mem').1 w.1 w.2 := by
      intro w hw
      rw [mem_uninitWords, not_not, init_iff] at hw
      rw [initRows_congr g mem mem' hw]
    have hlen := uninitWords_length g mem
    cases hackData with
    | none =>
      have hnil : uninitWords (initRows g mem).2 = [] := by
        by_contra hne
        obtain ⟨s, hs, _⟩ := hdigits (hlen ▸ List.length_pos_of_ne_nil hne)
        cases hs
      funext y x
      exact hout (y, x) (hnil ▸ List.not_mem_nil)
    | some s =>
      change ((uninitWords (initRows g mem).2).foldl restoreWord ((initRows g mem).1, s)).1 =
        ((uninitWords (initRows g mem').2).foldl restoreWord ((initRows g mem').1, s)).1
      rw [← hinit]
      apply foldl_restore_congr _ hout
      intro hne
      obtain ⟨s', hs, hlt⟩ := hdigits (hlen ▸ List.length_pos_of_ne_nil hne)
      cases hs
      rwa [hlen, ← length_nibbles]
  refine ⟨hrows, fun fuel => ?_⟩
  rw [fun00505340, fun00505340, hrows]
  exact fixLoop_curbits _ fuel _ _ _

def unlistedNode : Globals 4 where
  entry := 0
  listed := [2, 3]
  slots := ![none, some ⟨1, [0]⟩, some ⟨2, [1]⟩, some ⟨3, [1, 2]⟩]

theorem hack_deterministic_one_digit :
    fun00505340 id 5 false (some (ascii "f")) unlistedNode ⟨fun _ _ => 0xdeadbeef, fun _ => 7⟩ =
      fun00505340 id 5 false (some (ascii "f")) unlistedNode ⟨fun _ _ => 0, fun _ => 0⟩ :=
  (hack_deterministic id false (some (ascii "f")) unlistedNode _ _
    fun _ => ⟨ascii "f", rfl, by decide +kernel⟩).2 5

end Metroskrew.Patch
