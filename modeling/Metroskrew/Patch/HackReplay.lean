import Metroskrew.Patch.Fun00505340

/-! Words given back through SKREW_HACK01 are the words SKREW_HACK_CHK reported. -/

namespace Metroskrew.Patch

variable {n : ℕ}

lemma reverseLoop_getLsbD (z : ℕ) (a b : BitVec 32) {i : ℕ} (hi : i < 32) :
    (reverseLoop z a b).getLsbD i = if i < z then a.getLsbD (z - 1 - i) else b.getLsbD (i - z) := by
  induction z generalizing a b with
  | zero => rfl
  | succ z ih =>
    rw [reverseLoop, ih]
    by_cases hz : i < z
    · rw [if_pos hz, if_pos (by omega), BitVec.getLsbD_ushiftRight]
      congr 1
      omega
    · rw [if_neg hz, BitVec.getLsbD_or, BitVec.getLsbD_shiftLeft, BitVec.getLsbD_and]
      by_cases hiz : i = z
      · subst hiz
        simp
      · rw [if_neg (by omega), show i - z = i - (z + 1) + 1 by omega]
        simp
        omega

lemma reverse32_eq (a : BitVec 32) : reverse32 a = a.reverse := by
  apply BitVec.eq_of_getLsbD_eq
  intro i hi
  rw [reverse32, reverseLoop_getLsbD 32 a 0 hi, if_pos hi, BitVec.getLsbD_reverse,
    BitVec.getMsbD_eq_getLsbD]
  simp [hi]

lemma reverse32_reverse32 (a : BitVec 32) : reverse32 (reverse32 a) = a := by
  rw [reverse32_eq, reverse32_eq, BitVec.reverse_reverse_eq]

def nibbles (s : CString) : List UInt8 := s.filterMap hexValue

lemma nibbles_append (s t : CString) : nibbles (s ++ t) = nibbles s ++ nibbles t :=
  List.filterMap_append

def pushNibble (a : BitVec 32) (v : UInt8) : BitVec 32 := (a <<< 4) ||| v.toBitVec.setWidth 32

lemma readDigits_nibbles (s : CString) (a : BitVec 32) {i : ℕ} (hi : i ≤ 8) :
    ∃ rest, readDigits s a i = (((nibbles s).take (8 - i)).foldl pushNibble a,
        i + ((nibbles s).take (8 - i)).length, rest) ∧
      nibbles rest = (nibbles s).drop (8 - i) := by
  induction s generalizing a i with
  | nil => exact ⟨[], by simp [readDigits, nibbles], by simp [nibbles]⟩
  | cons c s ih =>
    rw [readDigits]
    by_cases hlt : i < 8
    · rw [if_pos hlt]
      cases hc : hexValue c with
      | none =>
        obtain ⟨rest, hread, hrest⟩ := ih a hi
        have hskip : nibbles (c :: s) = nibbles s := List.filterMap_cons_none hc
        exact ⟨rest, by rw [hskip, hread], by rw [hskip, hrest]⟩
      | some v =>
        obtain ⟨rest, hread, hrest⟩ := ih (pushNibble a v) (i := i + 1) hlt
        have hcons : nibbles (c :: s) = v :: nibbles s := List.filterMap_cons_some hc
        have hroom : 8 - i = 8 - (i + 1) + 1 := by omega
        refine ⟨rest, ?_, ?_⟩
        · rw [hcons, hroom, List.take_succ_cons, List.foldl_cons, List.length_cons]
          change readDigits s (pushNibble a v) (i + 1) = _
          rw [hread]
          congr 2
          omega
        · rw [hcons, hroom, List.drop_succ_cons, hrest]
    · obtain rfl : i = 8 := by omega
      exact ⟨c :: s, by simp, by simp⟩

def wordValue (ds : List UInt8) : BitVec 32 :=
  reverse32 (ds.foldl pushNibble 0 <<< (32 - ds.length * 4))

lemma readWord_nibbles (s : CString) :
    (readWord s).1 = (if nibbles s = [] then none else some (wordValue ((nibbles s).take 8))) ∧
      nibbles (readWord s).2 = (nibbles s).drop 8 := by
  obtain ⟨rest, hread, hrest⟩ := readDigits_nibbles s 0 (Nat.zero_le 8)
  rw [Nat.sub_zero, Nat.zero_add] at hread
  rw [readWord, hread]
  cases hs : nibbles s with
  | nil =>
    rw [hs] at hrest
    exact ⟨rfl, hrest⟩
  | cons v vs =>
    rw [hs] at hrest
    exact ⟨rfl, hrest⟩

lemma hexValue_hexDigit (v : BitVec 4) : hexValue (hexDigit v) = some ⟨v.setWidth 8⟩ := by
  revert v
  decide

lemma nibbles_hex08 (b : BitVec 32) :
    nibbles (hex08 b) = (List.range 8).map fun j => ⟨((b >>> (28 - 4 * j)).setWidth 4).setWidth 8⟩ := by
  rw [nibbles, hex08, List.filterMap_map]
  simp [hexValue_hexDigit]

lemma pushNibble_shift (b : BitVec 32) (s : ℕ) :
    pushNibble (b >>> (s + 4)) ⟨((b >>> s).setWidth 4).setWidth 8⟩ = b >>> s := by
  apply BitVec.eq_of_getLsbD_eq
  intro i hi
  simp only [pushNibble, BitVec.getLsbD_or, BitVec.getLsbD_shiftLeft, BitVec.getLsbD_ushiftRight,
    BitVec.getLsbD_setWidth, hi, decide_true, Bool.true_and]
  by_cases h4 : i < 4
  · simp [h4, show i < 8 by omega]
  · simp [h4, show s + 4 + (i - 4) = s + i by omega]

lemma wordValue_hex08 (a : BitVec 32) : wordValue (nibbles (hex08 (reverse32 a))) = a := by
  have hfold : ∀ k ≤ 8, ((nibbles (hex08 (reverse32 a))).take k).foldl pushNibble 0 =
      reverse32 a >>> (32 - 4 * k) := by
    intro k hk
    rw [nibbles_hex08]
    induction k with
    | zero =>
      rw [List.take_zero, List.foldl_nil]
      exact (BitVec.ushiftRight_eq_zero (by omega)).symm
    | succ k ih =>
      have := ih (by omega)
      rw [← List.map_take, List.take_range, Nat.min_eq_left (by omega)] at this ⊢
      rw [List.range_succ, List.map_append, List.foldl_append, this]
      have hs : 32 - 4 * k = 28 - 4 * k + 4 := by omega
      rw [List.map_singleton, List.foldl_cons, List.foldl_nil, hs, pushNibble_shift]
      congr 1
      omega
  have hlen : (nibbles (hex08 (reverse32 a))).length = 8 := by simp [nibbles_hex08]
  have hall := hfold 8 le_rfl
  rw [List.take_of_length_le hlen.le] at hall
  rw [wordValue, hall, hlen]
  simp [reverse32_reverse32]

lemma restoreWord_some {rows : Rows n} {s : CString} (hs : nibbles s ≠ [])
    (w : Fin n × Fin (wordlen n)) :
    restoreWord (rows, s) w =
      (setEntry rows w (wordValue ((nibbles s).take 8)), (readWord s).2) := by
  have h := (readWord_nibbles s).1
  rw [if_neg hs] at h
  rw [restoreWord]
  split
  · rename_i rest hr
    rw [hr] at h
    cases h
  · rename_i b rest hr
    rw [hr] at h
    cases h
    rw [hr]

lemma setEntry_self (rows : Rows n) (w : Fin n × Fin (wordlen n)) (b : BitVec 32) :
    setEntry rows w b w.1 w.2 = b := by simp [setEntry]

lemma setEntry_of_ne (rows : Rows n) {w u : Fin n × Fin (wordlen n)} (b : BitVec 32) (h : u ≠ w) :
    setEntry rows w b u.1 u.2 = rows u.1 u.2 := by
  by_cases h1 : u.1 = w.1
  · have h2 : u.2 ≠ w.2 := fun h2 => h (Prod.ext h1 h2)
    rw [setEntry, h1, Function.update_self, Function.update_of_ne h2, ← h1]
  · rw [setEntry, Function.update_of_ne h1]

def Globals.Initialised (g : Globals n) (y : Fin n) : Prop := y = g.entry ∨ y ∈ g.listed

instance (g : Globals n) (y : Fin n) : Decidable (g.Initialised y) :=
  inferInstanceAs (Decidable (_ ∨ _))

lemma foldl_listStep (is : List (Fin n)) (st : Rows n × (Fin n → Bool)) (y : Fin n) :
    (is.foldl listStep st).1 y = (if y ∈ is then fun _ => -1 else st.1 y) ∧
      ((is.foldl listStep st).2 y = true ↔ y ∈ is ∨ st.2 y = true) := by
  induction is generalizing st with
  | nil => simp
  | cons i is ih =>
    obtain ⟨hrow, hinit⟩ := ih (listStep st i)
    rw [List.foldl_cons, hrow, hinit]
    by_cases hy : y = i
    · subst hy
      simp [listStep, bitarrSet_eq]
    · simp [listStep, List.mem_cons, hy]

lemma init_iff (g : Globals n) (mem : Heap n) (y : Fin n) :
    (initRows g mem).2 y = true ↔ g.Initialised y := by
  rw [initRows, (foldl_listStep _ _ y).2, Globals.Initialised, or_comm]
  by_cases hy : y = g.entry <;> simp [hy]

lemma mem_uninitWords {init : Fin n → Bool} {w : Fin n × Fin (wordlen n)} :
    w ∈ uninitWords init ↔ init w.1 ≠ true := by
  rw [uninitWords, List.mem_flatMap]
  constructor
  · rintro ⟨y, _, hw⟩
    split_ifs at hw with hy
    · cases hw
    · obtain ⟨x, _, rfl⟩ := List.mem_map.mp hw
      exact hy
  · intro hw
    refine ⟨w.1, List.mem_finRange _, ?_⟩
    rw [if_neg hw]
    exact List.mem_map.mpr ⟨w.2, List.mem_finRange _, rfl⟩

lemma uninitWords_nodup (init : Fin n → Bool) : (uninitWords init).Nodup := by
  rw [uninitWords, List.nodup_flatMap]
  refine ⟨fun y _ => ?_, ?_⟩
  · split_ifs
    · exact List.nodup_nil
    · exact (List.nodup_finRange _).map fun x x' h => (Prod.mk.inj h).2
  · refine (List.nodup_finRange n).imp fun {y y'} hne => ?_
    intro w hw hw'
    beta_reduce at hw hw'
    split_ifs at hw hw' <;> simp at hw hw'
    obtain ⟨x, rfl⟩ := hw
    obtain ⟨x', hx⟩ := hw'
    exact hne (Prod.mk.inj hx).1.symm

lemma foldl_restore_other {ws : List (Fin n × Fin (wordlen n))} {u : Fin n × Fin (wordlen n)}
    (hu : u ∉ ws) (st : Rows n × CString) :
    (ws.foldl restoreWord st).1 u.1 u.2 = st.1 u.1 u.2 := by
  induction ws generalizing st with
  | nil => rfl
  | cons w ws ih =>
    rw [List.mem_cons, not_or] at hu
    rw [List.foldl_cons, ih hu.2, restoreWord]
    split
    · rfl
    · exact setEntry_of_ne _ _ hu.1

lemma foldl_restore {ws : List (Fin n × Fin (wordlen n))} (hws : ws.Nodup) (r rows : Rows n)
    {s : CString} {t : List UInt8}
    (hs : nibbles s = nibbles (ws.flatMap fun w => hex08 (reverse32 (r w.1 w.2))) ++ t) :
    (∀ w ∈ ws, (ws.foldl restoreWord (rows, s)).1 w.1 w.2 = r w.1 w.2) ∧
      nibbles (ws.foldl restoreWord (rows, s)).2 = t := by
  induction ws generalizing rows s with
  | nil => exact ⟨by simp, by simpa [nibbles] using hs⟩
  | cons w ws ih =>
    obtain ⟨hw, hnodup⟩ := List.nodup_cons.mp hws
    have hlen : (nibbles (hex08 (reverse32 (r w.1 w.2)))).length = 8 := by simp [nibbles_hex08]
    have hsplit : nibbles s = nibbles (hex08 (reverse32 (r w.1 w.2))) ++
        (nibbles (ws.flatMap fun w => hex08 (reverse32 (r w.1 w.2))) ++ t) := by
      rw [hs, List.flatMap_cons, nibbles_append, List.append_assoc]
    have htake : (nibbles s).take 8 = nibbles (hex08 (reverse32 (r w.1 w.2))) := by
      rw [hsplit, List.take_left' hlen]
    have hdrop := (readWord_nibbles s).2
    rw [hsplit, List.drop_left' hlen] at hdrop
    have hne : nibbles s ≠ [] := by
      intro h
      rw [h] at htake
      rw [← htake] at hlen
      cases hlen
    obtain ⟨hin, hrest⟩ := ih hnodup (setEntry rows w (r w.1 w.2)) hdrop
    rw [List.foldl_cons, restoreWord_some hne, htake, wordValue_hex08]
    refine ⟨fun u hu => ?_, hrest⟩
    rcases List.mem_cons.mp hu with rfl | hu
    · rw [foldl_restore_other hw]
      exact setEntry_self _ _ _
    · exact hin u hu

structure Call where
  n : ℕ
  globals : Globals n
  mem : Heap n

/-- `hack_data` after some calls; it is kept from one to the next. -/
def hackAfter (hackChk : Bool) (hackData : Option CString) (calls : List Call) : Option CString :=
  calls.foldl (fun hackData c => (prelude hackChk hackData c.globals c.mem).hackData) hackData

/-- All that is printed after `data:` over the calls. -/
def runData (hackChk : Bool) : Option CString → List Call → CString
  | _, [] => []
  | hackData, c :: calls =>
    (prelude hackChk hackData c.globals c.mem).data.getD [] ++
      runData hackChk (prelude hackChk hackData c.globals c.mem).hackData calls

structure CallPair where
  n : ℕ
  globals : Globals n
  globals' : Globals n
  mem : Heap n
  mem' : Heap n
  sameInit : ∀ y, globals.Initialised y ↔ globals'.Initialised y

def CallPair.first (c : CallPair) : Call := ⟨c.n, c.globals, c.mem⟩

def CallPair.second (c : CallPair) : Call := ⟨c.n, c.globals', c.mem'⟩

lemma CallPair.init_eq (c : CallPair) :
    (initRows c.globals c.mem).2 = (initRows c.globals' c.mem').2 := by
  funext y
  rw [Bool.eq_iff_iff, init_iff, init_iff]
  exact c.sameInit y

lemma prelude_report (g : Globals n) (mem : Heap n) :
    (prelude true none g mem).rows = (initRows g mem).1 ∧
      (prelude true none g mem).hackData = none ∧
      (prelude true none g mem).data.getD [] =
        reportData (initRows g mem).1 (initRows g mem).2 := by
  refine ⟨rfl, rfl, ?_⟩
  by_cases hall : ∀ i, (initRows g mem).2 i = true
  · have hnone : uninitWords (initRows g mem).2 = [] := by
      rw [List.eq_nil_iff_forall_not_mem]
      exact fun w hw => mem_uninitWords.mp hw (hall w.1)
    simp [prelude, hall, reportData, hnone]
  · simp [prelude, hall]

lemma runData_none (calls : List Call) :
    runData true none calls =
      calls.flatMap fun c => reportData (initRows c.globals c.mem).1 (initRows c.globals c.mem).2 := by
  induction calls with
  | nil => rfl
  | cons c calls ih =>
    obtain ⟨_, hhack, hdata⟩ := prelude_report c.globals c.mem
    rw [runData, hhack, hdata, ih]
    rfl

lemma hackAfter_none (calls : List Call) : hackAfter true none calls = none := by
  induction calls with
  | nil => rfl
  | cons c calls ih => exact ih

lemma CallPair.replay (c : CallPair) (hackChk : Bool) {s : CString} {t : List UInt8}
    (hs : nibbles s =
      nibbles (reportData (initRows c.globals c.mem).1 (initRows c.globals c.mem).2) ++ t) :
    (∃ rest, (prelude hackChk (some s) c.globals' c.mem').hackData = some rest ∧
        nibbles rest = t) ∧
      ∀ y x, ¬ c.globals'.Initialised y →
        (prelude hackChk (some s) c.globals' c.mem').rows y x = (initRows c.globals c.mem).1 y x := by
  rw [reportData, c.init_eq] at hs
  obtain ⟨hin, hrest⟩ := foldl_restore (uninitWords_nodup _) (initRows c.globals c.mem).1
    (initRows c.globals' c.mem').1 hs
  refine ⟨⟨_, rfl, hrest⟩, fun y x hy => hin (y, x) (mem_uninitWords.mpr ?_)⟩
  rwa [Ne, init_iff]

lemma nibbles_filter (s : CString) : nibbles (s.filter fun c => (hexValue c).isSome) = nibbles s := by
  rw [nibbles, nibbles, List.filterMap_filter]
  congr 1
  funext c
  cases hc : hexValue c <;> simp

/-- In every call of the second run the uninitialised rows are, when FUN_004f8b60 is called, what
they were in the first. The string may have anything but digits around the ones reported. -/
theorem hack_replay (calls : List CallPair) (hackData : CString) (hackChk : Bool)
    (hdata : hackData.filter (fun c => (hexValue c).isSome) =
      runData true none (calls.map CallPair.first)) (before after : List CallPair) (c : CallPair)
    (hcalls : calls = before ++ c :: after) (y : Fin c.n) (x : Fin (wordlen c.n))
    (hy : ¬ c.globals'.Initialised y) :
    (prelude hackChk (hackAfter hackChk (some hackData) (before.map CallPair.second))
        c.globals' c.mem').rows y x =
      (prelude true (hackAfter true none (before.map CallPair.first)) c.globals c.mem).rows y x := by
  rw [hackAfter_none, (prelude_report c.globals c.mem).1]
  have hnibbles := congrArg nibbles hdata
  rw [nibbles_filter, runData_none, List.flatMap_map] at hnibbles
  subst hcalls
  clear hdata
  induction before generalizing hackData with
  | nil =>
    rw [List.nil_append, List.flatMap_cons, nibbles_append] at hnibbles
    exact (c.replay hackChk hnibbles).2 y x hy
  | cons d before ih =>
    rw [List.cons_append, List.flatMap_cons, nibbles_append] at hnibbles
    obtain ⟨⟨rest, hrest, hnext⟩, _⟩ := d.replay hackChk hnibbles
    have hstep : hackAfter hackChk (some hackData) ((d :: before).map CallPair.second) =
        hackAfter hackChk (some rest) (before.map CallPair.second) := by
      rw [← hrest]
      rfl
    rw [hstep]
    exact ih rest hnext

def garbageCall : CallPair where
  n := 2
  globals := ⟨0, [], fun _ => none⟩
  globals' := ⟨0, [], fun _ => none⟩
  mem := ⟨fun _ _ => 0xdeadbeef, fun _ => 0⟩
  mem' := ⟨fun _ _ => 0x12345678, fun _ => 0⟩
  sameInit _ := Iff.rfl

theorem hack_replay_garbage :
    (prelude false (hackAfter false (some (ascii "f77db57b; f77db57b")) [garbageCall.second])
      garbageCall.globals' garbageCall.mem').rows ⟨1, by decide⟩ ⟨0, by decide⟩ = 0xdeadbeef :=
  hack_replay [garbageCall, garbageCall] (ascii "f77db57b; f77db57b") false (by decide +kernel)
    [garbageCall] [] garbageCall rfl ⟨1, by decide⟩ ⟨0, by decide⟩
    (by
      rintro (h | h)
      · exact absurd (congrArg Fin.val h) (by decide)
      · cases h)

end Metroskrew.Patch
