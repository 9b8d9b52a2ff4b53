import Metroskrew.Library.Dominators
import Metroskrew.Patch.HackReplay

/-! The loop of FUN_00505340 on the bits of its rows is the in-place iteration of the data-flow
equations of the graph, and so it leaves the dominators. -/

namespace Metroskrew.Patch

open Metroskrew.Library.Dominators Metroskrew.Library.InPlaceIteration

variable {n : ℕ} (g : Globals n)

def isPresent (v : Fin n) : Bool :=
  match g.slots v with
  | none => false
  | some node => node.unk1c ≠ g.entry

def predsOf (v : Fin n) : Set (Fin n) :=
  {u | ∃ i node, g.slots i = some node ∧ node.unk1c = v ∧ u ∈ node.preds}

/-- The graphs the loop is meant for: nodes other than the entry stand in their own slots,
have predecessors that are there, and are listed. -/
structure FlowGraph (listed : List (Fin n)) : Prop where
  entry_zero : (g.entry : ℕ) = 0
  own_slot : ∀ v node, g.slots v = some node → node.unk1c ≠ g.entry → node.unk1c = v
  has_pred : ∀ v node, g.slots v = some node → node.unk1c ≠ g.entry → node.preds ≠ []
  pred_present : ∀ v node, g.slots v = some node → node.unk1c ≠ g.entry →
    ∀ u ∈ node.preds, u = g.entry ∨ isPresent g u = true
  present_listed : ∀ v, isPresent g v = true → v ∈ listed
  entry_not_listed : g.entry ∉ listed

def presentNodes : List (Fin n) := (List.finRange n).filter (isPresent g)

def bitSets (rows : Rows n) : Fin n → Set (BitPos n) := fun v => bits (rows v)

variable {g} {listed : List (Fin n)}

lemma bitSets_update (rows : Rows n) (v : Fin n) (row : Row n) :
    bitSets (Function.update rows v row) = Function.update (bitSets rows) v (bits row) := by
  funext u
  by_cases hu : u = v
  · subst hu
    simp [bitSets]
  · simp [bitSets, hu]

lemma isPresent_some {v : Fin n} {node : Node n} (h : g.slots v = some node) :
    isPresent g v = true ↔ node.unk1c ≠ g.entry := by
  rw [isPresent, h]
  simp

lemma isPresent_node {v : Fin n} (h : isPresent g v = true) :
    ∃ node, g.slots v = some node ∧ node.unk1c ≠ g.entry := by
  cases hs : g.slots v with
  | none => simp [isPresent, hs] at h
  | some node => exact ⟨node, rfl, (isPresent_some hs).mp h⟩

lemma FlowGraph.mem_predsOf (hg : FlowGraph g listed) {v : Fin n} {node : Node n}
    (hslot : g.slots v = some node) (hne : node.unk1c ≠ g.entry) (u : Fin n) :
    u ∈ predsOf g v ↔ u ∈ node.preds := by
  constructor
  · rintro ⟨i, node', hi, hv, hu⟩
    have hown := hg.own_slot v node hslot hne
    obtain rfl : i = v := by
      rw [← hv]
      exact (hg.own_slot i node' hi (by rwa [hv, ← hown])).symm
    obtain rfl : node' = node := Option.some.inj (hi.symm.trans hslot)
    exact hu
  · exact fun hu => ⟨v, node, hslot, hg.own_slot v node hslot hne, hu⟩

lemma bits_foldl_and (rows : Rows n) (row : Row n) (ps : List (Fin n)) :
    bits (ps.foldl (fun curbits q => bitarrAnd curbits (rows q)) row) =
      {b | b ∈ bits row ∧ ∀ q ∈ ps, b ∈ bitSets rows q} := by
  induction ps generalizing row with
  | nil => simp
  | cons p ps ih =>
    rw [List.foldl_cons, ih, bits_and]
    ext b
    simp [bitSets, and_assoc]

/-- A visit of a node replaces its row by what its predecessors have in common, and its own bit. -/
lemma visitSlot_node (st : PassState n) {i : Fin n} {node : Node n} (hslot : g.slots i = some node)
    (hne : node.unk1c ≠ g.entry) (hpreds : node.preds ≠ []) :
    ∃ row, bits row = insert (bitPos node.unk1c) {b | ∀ q ∈ node.preds, b ∈ bitSets st.rows q} ∧
      visitSlot g st i = some ⟨Function.update st.rows node.unk1c row, row,
        st.cont + if st.rows node.unk1c = row then 0 else 1⟩ := by
  obtain ⟨p, ps, hps⟩ := List.exists_cons_of_ne_nil hpreds
  refine ⟨_, ?_, by simp only [visitSlot, hslot, if_neg hne, hps, bitarrCpy_eq, bitarrCpycmp_eq]; rfl⟩
  rw [bits_orBit, bits_foldl_and, hps]
  simp only [List.forall_mem_cons]
  rfl

lemma cont_iff_update (st : PassState n) (v : Fin n) (row : Row n) :
    (st.cont + if st.rows v = row then 0 else 1) = st.cont ↔
      Function.update st.rows v row = st.rows := by
  by_cases hsame : st.rows v = row
  · simp [← hsame]
  · simpa [hsame, Function.update_eq_self_iff] using Ne.symm hsame

/-- A visit of a node that is there replaces its row by what the data-flow equation gives, and counts
whether that changed it. -/
lemma FlowGraph.visitSlot_present (hg : FlowGraph g listed) (st : PassState n) {v : Fin n}
    (hv : isPresent g v = true) :
    ∃ st', visitSlot g st v = some st' ∧
      bitSets st'.rows = relax (meet (predsOf g) bitPos) v (bitSets st.rows) ∧
      st.cont ≤ st'.cont ∧ (st'.cont = st.cont ↔ st'.rows = st.rows) := by
  obtain ⟨node, hslot, hne⟩ := isPresent_node hv
  have hown := hg.own_slot v node hslot hne
  obtain ⟨row, hbits, hvisit⟩ := visitSlot_node st hslot hne (hg.has_pred v node hslot hne)
  rw [hown] at hbits hvisit
  refine ⟨_, hvisit, ?_, Nat.le_add_right _ _, ?_⟩
  · have hmeet : bits row = meet (predsOf g) bitPos v (bitSets st.rows) := by
      rw [hbits, meet]
      simp only [hg.mem_predsOf hslot hne]
    rw [bitSets_update, hmeet, relax]
  · exact cont_iff_update st v row

lemma visitSlot_absent (st : PassState n) {v : Fin n} (hv : isPresent g v ≠ true) :
    visitSlot g st v = some st := by
  rw [visitSlot]
  cases hslot : g.slots v with
  | none => rfl
  | some node =>
    have := mt (isPresent_some hslot).mpr hv
    rw [not_not] at this
    simp [this]

/-- A pass is a sweep over the nodes, and what it counts tells whether it changed a row. -/
lemma FlowGraph.foldlM_sweep (hg : FlowGraph g listed) (is : List (Fin n)) (st : PassState n) :
    ∃ st', is.foldlM (visitSlot g) st = some st' ∧
      bitSets st'.rows =
        sweep (meet (predsOf g) bitPos) (is.filter (isPresent g)) (bitSets st.rows) ∧
      st.cont ≤ st'.cont ∧ (st'.cont = st.cont → st'.rows = st.rows) := by
  induction is generalizing st with
  | nil => exact ⟨st, rfl, rfl, le_rfl, fun _ => rfl⟩
  | cons i is ih =>
    rw [List.foldlM_cons]
    by_cases hi : isPresent g i = true
    · obtain ⟨mid, hmid, hbits, hle, hrows⟩ := hg.visitSlot_present st hi
      obtain ⟨st', hst', hbits', hle', hrows'⟩ := ih mid
      refine ⟨st', by rw [hmid]; exact hst', ?_, hle.trans hle', fun hcont => ?_⟩
      · rw [List.filter_cons_of_pos hi, sweep_cons, ← hbits, hbits']
      · rw [hrows' (by omega), hrows.mp (by omega)]
    · obtain ⟨st', hst', hbits', hle', hrows'⟩ := ih st
      rw [visitSlot_absent st hi, List.filter_cons_of_neg hi]
      exact ⟨st', hst', hbits', hle', hrows'⟩

lemma FlowGraph.foldlM_fixed (hg : FlowGraph g listed) (is : List (Fin n)) (st : PassState n)
    (hfix : ∀ v, isPresent g v = true →
      meet (predsOf g) bitPos v (bitSets st.rows) = bitSets st.rows v) :
    ∃ st', is.foldlM (visitSlot g) st = some st' ∧ st'.rows = st.rows ∧ st'.cont = st.cont := by
  induction is generalizing st with
  | nil => exact ⟨st, rfl, rfl, rfl⟩
  | cons i is ih =>
    rw [List.foldlM_cons]
    by_cases hi : isPresent g i = true
    · obtain ⟨mid, hmid, hbits, _, hcont⟩ := hg.visitSlot_present st hi
      have hrows : mid.rows = st.rows := by
        funext v
        apply bits_injective
        have := congrFun hbits v
        rwa [relax, hfix i hi, Function.update_eq_self] at this
      obtain ⟨st', hst', hrows', hcont'⟩ := ih mid (hrows ▸ hfix)
      refine ⟨st', by rw [hmid]; exact hst', hrows'.trans hrows, ?_⟩
      exact hcont'.trans (hcont.mpr hrows)
    · rw [visitSlot_absent st hi]
      exact ih st hfix

variable (g) in
def EndsInDominators (rows : Rows n) (curbits : Row n) : Prop :=
  ∃ fuel rows', fixLoop g fuel rows curbits = some rows' ∧
    ∀ v ∈ presentNodes g, ∀ w, bitPos w ∈ bitSets rows' v ↔ Dominates (predsOf g) g.entry w v

lemma FlowGraph.preds_presentNodes (hg : FlowGraph g listed) {v u : Fin n} (hu : u ∈ predsOf g v)
    (hv : v ≠ g.entry) : u = g.entry ∨ u ∈ presentNodes g := by
  obtain ⟨i, node, hslot, rfl, hu⟩ := hu
  rcases hg.pred_present i node hslot hv u hu with rfl | hpres
  · exact .inl rfl
  · exact .inr (List.mem_filter.mpr ⟨List.mem_finRange u, hpres⟩)

lemma FlowGraph.endsInDominators (hg : FlowGraph g listed) (rows : Rows n) (curbits : Row n)
    (h : Above (predsOf g) g.entry bitPos (presentNodes g) (bitSets rows)) :
    EndsInDominators g rows curbits := by
  have hnot : g.entry ∉ presentNodes g := by
    intro hmem
    obtain ⟨node, hslot, hne⟩ := isPresent_node (List.mem_filter.mp hmem).2
    exact hne (hg.own_slot g.entry node hslot hne)
  have hvs : ∀ v, v ≠ g.entry → (∃ u, u ∈ predsOf g v) → v ∈ presentNodes g := by
    rintro v hv ⟨u, i, node, hslot, rfl, _⟩
    rw [hg.own_slot i node hslot hv]
    exact List.mem_filter.mpr ⟨List.mem_finRange i, (isPresent_some hslot).mpr hv⟩
  refine Descending.induction (motive := fun s => ∀ rows curbits, bitSets rows = s →
    Above (predsOf g) g.entry bitPos (presentNodes g) s → EndsInDominators g rows curbits)
    meet_mono ?_ ?_ h.descending rows curbits rfl h
  · rintro s hdesc hfix rows curbits rfl h
    have heq := hdesc.eq_of_sweep meet_mono (List.Subset.refl _) hfix
    obtain ⟨st', hpass, hrows, hcont⟩ := hg.foldlM_fixed (List.finRange n)
      ⟨rows, curbits, 0⟩ fun v hv => heq v (List.mem_filter.mpr ⟨List.mem_finRange v, hv⟩)
    refine ⟨1, rows, ?_, fun v hv w => h.mem_iff bitPos_injective hvs hfix hv w⟩
    have hpass' : pass g rows curbits = some st' := hpass
    simp only [fixLoop, hpass', bind, Option.bind_some, hrows]
    exact if_pos hcont
  · rintro s hdesc hchange ih rows curbits rfl h
    obtain ⟨st', hpass, hbits, _, hsame⟩ :=
      hg.foldlM_sweep (List.finRange n) ⟨rows, curbits, 0⟩
    obtain ⟨fuel, rows', hloop, hdom⟩ := ih st'.rows st'.curbits hbits
      (h.sweep hnot fun v hv u hu => hg.preds_presentNodes hu (ne_of_mem_of_not_mem hv hnot))
    have hcont : st'.cont ≠ 0 := by
      intro hzero
      apply hchange
      rw [presentNodes, ← hbits, hsame hzero]
    have hpass' : pass g rows curbits = some st' := hpass
    refine ⟨fuel + 1, rows', ?_, hdom⟩
    simp only [fixLoop, hpass', bind, Option.bind_some, if_neg hcont, hloop]

lemma initRows_listed (mem : Heap n) {v : Fin n} (hv : v ∈ g.listed) :
    bitSets (initRows g mem).1 v = Set.univ := by
  rw [bitSets, initRows, (foldl_listStep _ _ v).1, if_pos hv]
  exact bitarrSet_eq (mem.rows v) (-1) ▸ bits_ones (mem.rows v)

lemma initRows_entry (mem : Heap n) (hzero : (g.entry : ℕ) = 0) (hentry : g.entry ∉ g.listed) :
    bitSets (initRows g mem).1 g.entry = {bitPos g.entry} := by
  have hfirst : wordOf g.entry = ⟨0, by have := g.entry.pos; unfold wordlen; omega⟩ := by
    apply Fin.ext
    simp [wordOf, hzero]
  have hrow : entryRow g mem = orBit (fun _ => 0) g.entry := by
    rw [entryRow, orBit, hfirst, hzero, bitarrSet_eq]
    rfl
  have hnone : bits (fun _ : Fin (wordlen n) => 0#32) = ∅ := by
    ext b
    simp [bits]
  rw [bitSets, initRows, (foldl_listStep _ _ _).1, if_neg hentry]
  change bits (Function.update mem.rows g.entry (entryRow g mem) g.entry) = _
  rw [Function.update_self, hrow, bits_orBit]
  exact (congrArg _ hnone).trans (insert_empty_eq _)

lemma prelude_rows (hackChk : Bool) (hackData : Option CString) (mem : Heap n) {y : Fin n}
    (hy : g.Initialised y) :
    (prelude hackChk hackData g mem).rows y = (initRows g mem).1 y := by
  cases hackData with
  | none => rfl
  | some s =>
    funext x
    refine foldl_restore_other (u := (y, x)) ?_ _
    rw [mem_uninitWords, not_not]
    exact (init_iff g mem y).mpr hy

/-- With every node listed, the loop ends, and then bit `w` of row `v` tells whether every path from
the entry to `v` passes through `w`. -/
theorem loop_dominators (fun004f8b60 : Globals n → Globals n) (hackChk : Bool)
    (hackData : Option CString) (g : Globals n) (mem : Heap n)
    (hentry : (fun004f8b60 g).entry = g.entry) (hg : FlowGraph (fun004f8b60 g) g.listed) :
    ∃ fuel rows, fun00505340 fun004f8b60 fuel hackChk hackData g mem = some rows ∧
      ∀ v, isPresent (fun004f8b60 g) v = true → ∀ w : Fin n,
        ((rows v (wordOf w)).getLsbD (w % 32) = true ↔
          ∀ path, Walk (predsOf (fun004f8b60 g)) (fun004f8b60 g).entry v path → w ∈ path) := by
  have hzero : (g.entry : ℕ) = 0 := hentry ▸ hg.entry_zero
  have hnot : g.entry ∉ g.listed := hentry ▸ hg.entry_not_listed
  have hrow : bitSets (prelude hackChk hackData g mem).rows g.entry = {bitPos g.entry} := by
    rw [bitSets, prelude_rows _ _ _ (.inl rfl)]
    exact initRows_entry mem hzero hnot
  have hones : ∀ v ∈ presentNodes (fun004f8b60 g),
      bitSets (prelude hackChk hackData g mem).rows v = Set.univ := by
    intro v hv
    have hlisted := hg.present_listed v (List.mem_filter.mp hv).2
    rw [bitSets, prelude_rows _ _ _ (.inr hlisted)]
    exact initRows_listed mem hlisted
  have habove : Above (predsOf (fun004f8b60 g)) (fun004f8b60 g).entry bitPos
      (presentNodes (fun004f8b60 g)) (bitSets (prelude hackChk hackData g mem).rows) := by
    refine ⟨by rw [hentry, hrow], fun v hv => by rw [hones v hv]; exact le_top, fun v hv => ?_⟩
    rcases hv with rfl | hv
    · rw [hentry, hrow, ← hentry]
      exact domSet_entry
    · rw [hones v hv]
      exact le_top
  obtain ⟨fuel, rows, hloop, hdom⟩ := hg.endsInDominators _ mem.curbits habove
  refine ⟨fuel, rows, hloop, fun v hv w => ?_⟩
  exact hdom v (List.mem_filter.mpr ⟨List.mem_finRange v, hv⟩) w

def loopGraph : Globals 3 where
  entry := 0
  listed := [2, 1]
  slots := ![some ⟨0, []⟩, some ⟨1, [0, 2]⟩, some ⟨2, [1]⟩]

def loopHeap : Heap 3 := ⟨fun _ _ => 0xdeadbeef, fun _ => 0⟩

theorem loop_dominators_cycle :
    ∃ fuel rows, fun00505340 id fuel true none loopGraph loopHeap = some rows ∧
      ∀ v, isPresent (id loopGraph) v = true → ∀ w : Fin 3,
        ((rows v (wordOf w)).getLsbD (w % 32) = true ↔
          ∀ path, Walk (predsOf (id loopGraph)) (id loopGraph).entry v path → w ∈ path) :=
  loop_dominators id true none loopGraph loopHeap rfl {
    entry_zero := rfl
    own_slot v node h _ := by fin_cases v <;> cases h <;> rfl
    has_pred v node h hne := by
      fin_cases v <;> cases h
      · exact absurd rfl hne
      · decide
      · decide
    pred_present v node h _ u hu := by
      revert u
      fin_cases v <;> cases h <;> decide
    present_listed := by decide
    entry_not_listed := by decide
  }

end Metroskrew.Patch
