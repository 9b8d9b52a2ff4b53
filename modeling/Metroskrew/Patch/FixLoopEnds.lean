import Metroskrew.Library.Settling
import Metroskrew.Patch.DominatorRows
import Metroskrew.Patch.HackDeterminism

/-! Whether the loop of FUN_00505340 ends, by the ways cleared bits take from row to row. -/

namespace Metroskrew.Patch

open Metroskrew.Library.Settling

variable {n : ℕ} (g : Globals n)

/-- A bit that row `u` lacks is lacking in row `v` after the visit of slot `i`. -/
def visitCarries (b : BitPos n) (i u v : Fin n) : Prop :=
  match g.slots i with
  | none => u = v
  | some cur1 =>
    if cur1.unk1c = g.entry ∨ cur1.unk1c ≠ v then u = v else u ∈ cur1.preds ∧ b ≠ bitPos v

def carriesOver (b : BitPos n) : List (Fin n) → Fin n → Fin n → Prop
  | [], u, v => u = v
  | i :: is, u, v => ∃ w, visitCarries g b i u w ∧ carriesOver b is w v

/-- The same over a whole pass. -/
def Carries (b : BitPos n) : Fin n → Fin n → Prop := carriesOver g b (List.finRange n)

def cleared (b : BitPos n) (rows : Rows n) : Set (Fin n) := {v | b ∉ bitSets rows v}

/-- No bit goes round for ever: it arrives in every phase of a round trip, or in none. -/
def NothingCirculates (rows : Rows n) : Prop := ∀ b, EveryPhase (Carries g b) (cleared b rows)

/-- Every node but the entry has a predecessor, and a number of its own. -/
structure NodeGraph : Prop where
  has_pred : ∀ i node, g.slots i = some node → node.unk1c ≠ g.entry → node.preds ≠ []
  own_number : ∀ i j node node', g.slots i = some node → g.slots j = some node' →
    node.unk1c ≠ g.entry → node.unk1c = node'.unk1c → i = j

def Writes (i v : Fin n) : Prop := ∃ node, g.slots i = some node ∧ node.unk1c ≠ g.entry ∧ node.unk1c = v

variable {g} {rows : Rows n} {is : List (Fin n)} {i v : Fin n}

lemma cleared_ext {rows' : Rows n} (h : ∀ b, cleared b rows' = cleared b rows) : rows' = rows := by
  funext v
  apply bits_injective
  ext b
  exact not_iff_not.mp (Set.ext_iff.mp (h b) v)

lemma visitCarries_of_not_writes {b : BitPos n} {u : Fin n} (h : ¬ Writes g i v) :
    visitCarries g b i u v ↔ u = v := by
  rw [visitCarries]
  cases hslot : g.slots i with
  | none => rfl
  | some node =>
    have hor : node.unk1c = g.entry ∨ node.unk1c ≠ v := by
      by_contra hno
      rw [not_or, not_not] at hno
      exact h ⟨node, hslot, hno⟩
    simp only [if_pos hor]

lemma visitCarries_of_writes {b : BitPos n} {u : Fin n} {node : Node n}
    (hslot : g.slots i = some node) (hne : node.unk1c ≠ g.entry) :
    visitCarries g b i u node.unk1c ↔ u ∈ node.preds ∧ b ≠ bitPos node.unk1c := by
  simp [visitCarries, hslot, hne]

structure Visited (g : Globals n) (is : List (Fin n)) (st st' : PassState n) : Prop where
  clears : ∀ b, cleared b st'.rows = spread (carriesOver g b is) (cleared b st.rows)
  frame : ∀ v, (∀ i ∈ is, ¬ Writes g i v) → st'.rows v = st.rows v
  cont_le : st.cont ≤ st'.cont
  cont_iff : st'.cont = st.cont ↔ st'.rows = st.rows

lemma NodeGraph.visit (hg : NodeGraph g) (st : PassState n) (i : Fin n) :
    ∃ st', visitSlot g st i = some st' ∧
      (∀ b, cleared b st'.rows = spread (visitCarries g b i) (cleared b st.rows)) ∧
      (∀ v, ¬ Writes g i v → st'.rows v = st.rows v) ∧
      st.cont ≤ st'.cont ∧ (st'.cont = st.cont ↔ st'.rows = st.rows) := by
  by_cases hpres : isPresent g i = true
  · obtain ⟨node, hslot, hne⟩ := isPresent_node hpres
    obtain ⟨row, hbits, hvisit⟩ := visitSlot_node st hslot hne (hg.has_pred i node hslot hne)
    have hwrites : ∀ v, Writes g i v ↔ v = node.unk1c := by
      intro v
      constructor
      · rintro ⟨node', hslot', -, rfl⟩
        rw [Option.some.inj (hslot'.symm.trans hslot)]
      · rintro rfl
        exact ⟨node, hslot, hne, rfl⟩
    refine ⟨_, hvisit, fun b => ?_, fun v hv => ?_, Nat.le_add_right _ _, ?_⟩
    · ext v
      by_cases hv : v = node.unk1c
      · subst hv
        simp only [cleared, bitSets_update, Function.update_self, hbits, spread, Set.mem_ofPred_eq,
          visitCarries_of_writes hslot hne, Set.mem_insert_iff, not_or, not_forall]
        constructor
        · rintro ⟨hb, u, hu, hclear⟩
          exact ⟨u, hclear, hu, hb⟩
        · rintro ⟨u, hclear, hu, hb⟩
          exact ⟨hb, u, hu, hclear⟩
      · simp only [cleared, bitSets_update, Function.update_of_ne hv, spread, Set.mem_ofPred_eq,
          visitCarries_of_not_writes (mt (hwrites v).mp hv), exists_eq_right]
    · exact Function.update_of_ne (mt (hwrites v).mpr hv) _ _
    · exact cont_iff_update st node.unk1c row
  · refine ⟨st, visitSlot_absent st hpres, fun b => ?_, fun _ _ => rfl, le_rfl, by simp⟩
    have hwrites : ∀ v, ¬ Writes g i v := by
      rintro v ⟨node, hslot, hne, -⟩
      exact hpres ((isPresent_some hslot).mpr hne)
    ext v
    simp [spread, visitCarries_of_not_writes (hwrites v)]

lemma NodeGraph.visits (hg : NodeGraph g) (his : is.Nodup) (st : PassState n) :
    ∃ st', is.foldlM (visitSlot g) st = some st' ∧ Visited g is st st' := by
  induction is generalizing st with
  | nil =>
    refine ⟨st, rfl, fun b => ?_, fun _ _ => rfl, le_rfl, by simp⟩
    ext v
    simp [spread, carriesOver]
  | cons i is ih =>
    obtain ⟨hi, hnodup⟩ := List.nodup_cons.mp his
    obtain ⟨mid, hmid, hclears, hframe, hle, hcont⟩ := hg.visit st i
    obtain ⟨st', hst', hrest⟩ := ih hnodup mid
    refine ⟨st', by rw [List.foldlM_cons, hmid]; exact hst', fun b => ?_, fun v hv => ?_,
      hle.trans hrest.cont_le, fun h => ?_, fun h => ?_⟩
    · rw [hrest.clears, hclears]
      ext v
      simp only [spread, Set.mem_ofPred_eq, carriesOver]
      constructor
      · rintro ⟨w, ⟨u, hu, hw⟩, hv⟩
        exact ⟨u, hu, w, hw, hv⟩
      · rintro ⟨u, hu, w, hw, hv⟩
        exact ⟨w, ⟨u, hu, hw⟩, hv⟩
    · rw [hrest.frame v fun j hj => hv j (List.mem_cons_of_mem i hj), hframe v (hv i List.mem_cons_self)]
    · have := hrest.cont_le
      rw [hrest.cont_iff.mp (by omega), hcont.mp (by omega)]
    · -- the row the first visit wrote is not written again
      have hsame : mid.rows = st.rows := by
        funext v
        by_cases hv : Writes g i v
        · obtain ⟨node, hslot, hne, rfl⟩ := hv
          rw [← h]
          refine (hrest.frame _ fun j hj => ?_).symm
          rintro ⟨node', hslot', -, heq⟩
          exact ne_of_mem_of_not_mem hj hi (hg.own_number i j node node' hslot hslot' hne heq.symm).symm
        · exact hframe v hv
      rw [hrest.cont_iff.mpr (h.trans hsame.symm), hcont.mpr hsame]

lemma NodeGraph.pass (hg : NodeGraph g) (rows : Rows n) (curbits : Row n) :
    ∃ st', Patch.pass g rows curbits = some st' ∧
      (∀ b, cleared b st'.rows = spread (Carries g b) (cleared b rows)) ∧
      (st'.cont = 0 ↔ st'.rows = rows) := by
  obtain ⟨st', hst', hvisited⟩ := hg.visits (List.nodup_finRange n) ⟨rows, curbits, 0⟩
  exact ⟨st', hst', hvisited.clears, hvisited.cont_iff⟩

lemma NodeGraph.fixLoop_ends (hg : NodeGraph g) (rows : Rows n) (curbits : Row n) :
    (∃ fuel out, fixLoop g fuel rows curbits = some out) ↔
      ∃ t, ∀ b, (spread (Carries g b))^[t + 1] (cleared b rows) =
        (spread (Carries g b))^[t] (cleared b rows) := by
  constructor
  · rintro ⟨fuel, out, hloop⟩
    induction fuel generalizing rows curbits with
    | zero => cases hloop
    | succ fuel ih =>
      obtain ⟨st, hpass, hclears, hcont⟩ := hg.pass rows curbits
      simp only [fixLoop, hpass, bind, Option.bind_some] at hloop
      split_ifs at hloop with hzero
      · refine ⟨0, fun b => ?_⟩
        rw [Function.iterate_one, ← hclears, hcont.mp hzero]
        rfl
      · obtain ⟨t, ht⟩ := ih st.rows st.curbits hloop
        refine ⟨t + 1, fun b => ?_⟩
        have := ht b
        rwa [hclears, ← Function.iterate_succ_apply, ← Function.iterate_succ_apply] at this
  · rintro ⟨t, ht⟩
    induction t generalizing rows curbits with
    | zero =>
      obtain ⟨st, hpass, hclears, hcont⟩ := hg.pass rows curbits
      have hrows : st.rows = rows := cleared_ext fun b => by rw [hclears]; exact ht b
      refine ⟨1, st.rows, ?_⟩
      simp only [fixLoop, hpass, bind, Option.bind_some, if_pos (hcont.mpr hrows)]
    | succ t ih =>
      obtain ⟨st, hpass, hclears, hcont⟩ := hg.pass rows curbits
      by_cases hzero : st.cont = 0
      · refine ⟨1, st.rows, ?_⟩
        simp only [fixLoop, hpass, bind, Option.bind_some, if_pos hzero]
      · obtain ⟨fuel, out, hloop⟩ := ih st.rows st.curbits fun b => by
          rw [hclears, ← Function.iterate_succ_apply, ← Function.iterate_succ_apply]
          exact ht b
        refine ⟨fuel + 1, out, ?_⟩
        simp only [fixLoop, hpass, bind, Option.bind_some, if_neg hzero, hloop]

lemma NodeGraph.fixLoop_ends_iff (hg : NodeGraph g) (rows : Rows n) (curbits : Row n) :
    (∃ fuel out, fixLoop g fuel rows curbits = some out) ↔ NothingCirculates g rows := by
  rw [hg.fixLoop_ends, NothingCirculates]
  simp only [← settles_iff]
  constructor
  · rintro ⟨t, ht⟩ b
    filter_upwards [Filter.eventually_ge_atTop t] with s hs
    rw [iterate_fixed (ht b) (Nat.le_succ_of_le hs), iterate_fixed (ht b) hs]
  · intro h
    exact (Filter.eventually_all.mpr h).exists

/-- For any graph with predecessors and any contents of the rows, listed or not. -/
theorem loop_ends_iff (fun004f8b60 : Globals n → Globals n) (hackChk : Bool)
    (hackData : Option CString) (g : Globals n) (mem : Heap n) (hg : NodeGraph (fun004f8b60 g)) :
    (∃ fuel rows, fun00505340 fun004f8b60 fuel hackChk hackData g mem = some rows) ↔
      NothingCirculates (fun004f8b60 g) (prelude hackChk hackData g mem).rows :=
  hg.fixLoop_ends_iff _ _

lemma nodeGraph_of_own_slot {n : ℕ} {g : Globals n}
    (hpred : ∀ i node, g.slots i = some node → node.unk1c ≠ g.entry → node.preds ≠ [])
    (hown : ∀ i node, g.slots i = some node → node.unk1c = i) : NodeGraph g where
  has_pred := hpred
  own_number i j node node' hi hj _ h := by rw [← hown i node hi, h, hown j node' hj]

def unlistedGraph : Globals 3 := { loopGraph with listed := [] }

theorem loop_ends_unlisted :
    NothingCirculates (id unlistedGraph) (prelude false none unlistedGraph loopHeap).rows :=
  (loop_ends_iff id false none unlistedGraph loopHeap (nodeGraph_of_own_slot
    (by
      intro i node h hne
      fin_cases i <;> cases h
      · exact absurd rfl hne
      · decide
      · decide)
    (by
      intro i node h
      fin_cases i <;> cases h <;> rfl))).mp
    ⟨5, Option.isSome_iff_exists.mp (by decide +kernel)⟩

/-- Three nodes, each the only predecessor of the one before it. -/
def circleGraph : Globals 5 where
  entry := 0
  listed := []
  slots := ![some ⟨0, []⟩, some ⟨1, [2]⟩, some ⟨2, [3]⟩, some ⟨3, [1]⟩, none]

def circleRows (x y : BitVec 32) : Rows 5 :=
  ![fun _ => 1, fun _ => x, fun _ => y, fun _ => x, fun _ => 0]

lemma circle_pass (rows rows' : Rows 5)
    (h : (pass circleGraph rows 0).map (fun st => (st.rows, decide (st.cont = 0))) =
      some (rows', false)) (fuel : ℕ) (hloop : fixLoop circleGraph fuel rows' 0 = none) :
    fixLoop circleGraph (fuel + 1) rows 0 = none := by
  obtain ⟨st, hpass, hst⟩ := Option.map_eq_some_iff.mp h
  obtain ⟨rfl, hcont⟩ := Prod.mk.inj hst
  simp only [fixLoop, hpass, bind, Option.bind_some, if_neg (of_decide_eq_false hcont)]
  rw [fixLoop_curbits circleGraph fuel _ st.curbits 0, hloop]

lemma circle_loops (fuel : ℕ) : fixLoop circleGraph fuel (circleRows 0xe 0xf) 0 = none ∧
    fixLoop circleGraph fuel (circleRows 0xf 0xe) 0 = none := by
  induction fuel with
  | zero => exact ⟨rfl, rfl⟩
  | succ fuel ih =>
    exact ⟨circle_pass _ _ (by decide +kernel) fuel ih.2,
      circle_pass _ _ (by decide +kernel) fuel ih.1⟩

theorem loop_never_ends : NodeGraph circleGraph ∧ ∀ fuel,
    fun00505340 id fuel false none circleGraph ⟨circleRows 0xe 0xf, fun _ => 0⟩ = none := by
  refine ⟨nodeGraph_of_own_slot ?_ ?_, fun fuel => ?_⟩
  · intro i node h hne
    fin_cases i <;> cases h
    · exact absurd rfl hne
    · decide
    · decide
    · decide
  · intro i node h
    fin_cases i <;> cases h <;> rfl
  · have hrows : (prelude false none circleGraph ⟨circleRows 0xe 0xf, fun _ => 0⟩).rows =
        circleRows 0xe 0xf := by decide +kernel
    rw [fun00505340, hrows]
    exact (circle_loops fuel).1

end Metroskrew.Patch
