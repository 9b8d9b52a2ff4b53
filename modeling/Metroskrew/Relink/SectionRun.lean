import Metroskrew.Relink.DumpAsm

/-! Successful runs of the section loop, one constructor for each kind of turn, and what the three
lookups of a turn say about the tables. -/

namespace Metroskrew.Relink

variable (t : Tables) (win : Bool) (sec : PeSection)

def visitLines (pos lastPos : ℕ) (found : Found) : List Directive :=
  flushTo sec lastPos pos ++ (dumpFound win sec pos found).1

def afterVisit (pos size : ℕ) : ℕ × ℕ := if size = 0 then (pos + 1, pos) else (pos + size, pos + size)

inductive Run : ℕ → ℕ → List (ℕ × Directive) → Prop
  | done {pos lastPos} : sec.vsize < pos → Run pos lastPos []
  | skip {pos lastPos found ds} : pos < sec.vsize → findAt t (sec.address + pos) = .ok found →
      found.dump = false → Run (pos + 1) lastPos ds → Run pos lastPos ds
  | visit {pos lastPos found ds} : pos ≤ sec.vsize → findAt t (sec.address + pos) = .ok found →
      Run (afterVisit pos (dumpFound win sec pos found).2).1
        (afterVisit pos (dumpFound win sec pos found).2).2 ds →
      Run pos lastPos ((visitLines win sec pos lastPos found).map (fun line => (pos, line)) ++ ds)

lemma ok_of_map_ok {ε α β : Type} {f : α → β} {x : Except ε α} {b : β} (h : f <$> x = .ok b) :
    ∃ a, x = .ok a ∧ f a = b := by
  cases x with
  | error e => cases h
  | ok a => exact ⟨a, rfl, by cases h; rfl⟩

lemma sectionLoop_run (pos lastPos : ℕ) (ds : List (ℕ × Directive))
    (h : sectionLoop t win sec pos lastPos = .ok ds) : Run t win sec pos lastPos ds := by
  fun_induction sectionLoop t win sec pos lastPos generalizing ds with
  | case1 pos lastPos hle message hf => cases h
  | case2 pos lastPos hle found hf hskip ih =>
    exact .skip (by omega) hf hskip.1 (ih ds h)
  | case3 pos lastPos hle found hf hvisit lines next ihjump ihstep =>
    obtain ⟨rest, hrest, rfl⟩ := ok_of_map_ok h
    refine .visit hle hf ?_
    by_cases hn : next = pos
    · rw [dif_neg (by simpa using hn)] at hrest
      rw [afterVisit, if_pos (by omega)]
      exact ihstep (by simpa using hn) rest hrest
    · rw [dif_pos hn] at hrest
      rw [afterVisit, if_neg (by omega)]
      exact ihjump hn rest hrest
  | case4 pos lastPos hgt =>
    cases h
    exact .done (by omega)

def SlotAt (x a : ℕ) : Prop := t.imports.impAddr[x]? = some a

def BlockAt (x b n : ℕ) : Prop :=
  t.rsrcStrings.addr[x]? = some b ∧ t.rsrcStrings.size.getD x 0 = n

/-- The places that take up room: every slot, and every block that is not empty. -/
def ItemAt : ℕ ⊕ ℕ → ℕ → ℕ → Prop
  | .inl x, a, n => SlotAt t x a ∧ n = 4
  | .inr y, b, n => BlockAt t y b n ∧ n ≠ 0

def Visits (a : ℕ) : Prop := sec.address ≤ a ∧ a ≤ sec.address + sec.vsize

/-- What starts inside the section ends inside it, and nothing the loop finds overlaps. -/
structure Tidy : Prop where
  inside : ∀ i a n, ItemAt t i a n → sec.address ≤ a → a < sec.address + sec.vsize →
    a + n ≤ sec.address + sec.vsize
  apart : ∀ i j a b n m, i ≠ j → ItemAt t i a n → ItemAt t j b m → Visits sec a → Visits sec b →
    a + n ≤ b ∨ b + m ≤ a

/-- How much room the slot and the block that start at an address take up. -/
def room (addr : ℕ) : ℕ :=
  (if addr ∈ t.imports.impAddr then 4 else 0) +
    ((dumpFindRsrcString t addr).map DumpRsrcString.size).getD 0

/-- The positions the section loop comes to from one of them. -/
inductive Reached : ℕ → ℕ → Prop
  | here {pos} : Reached pos pos
  | next {pos p} : pos ≤ sec.vsize →
      Reached (afterVisit pos (room t (sec.address + pos))).1 p → Reached pos p

variable {t win sec}

lemma findIdx?_none {xs : List ℕ} {a : ℕ} (h : xs.findIdx? (· = a) = none) (x : ℕ) :
    xs[x]? ≠ some a := by
  intro hx
  have hm := List.mem_of_getElem? hx
  simpa using List.findIdx?_eq_none_iff.mp h a hm

lemma findIdx?_some {xs : List ℕ} {a x : ℕ} (h : xs.findIdx? (· = a) = some x) :
    xs[x]? = some a ∧ ∀ y < x, xs[y]? ≠ some a := by
  obtain ⟨hx, ha, hlt⟩ := List.findIdx?_eq_some_iff_getElem.mp h
  refine ⟨?_, fun y hy => ?_⟩
  · rw [List.getElem?_eq_getElem hx, of_decide_eq_true ha]
  · rw [List.getElem?_eq_getElem (by omega)]
    simpa using hlt y hy

variable {α : Type} {addrs : List ℕ} {addr : ℕ} {read : ℕ → Dump α}

lemma findFirst_none (h : findFirst addrs addr read = .ok none) (x : ℕ) : addrs[x]? ≠ some addr := by
  rw [findFirst] at h
  cases hf : addrs.findIdx? (· = addr) with
  | none => exact findIdx?_none hf x
  | some y =>
    simp only [hf] at h
    obtain ⟨d, _, hd⟩ := ok_of_map_ok h
    cases hd

lemma findFirst_some {d : α} (h : findFirst addrs addr read = .ok (some d)) :
    ∃ x, addrs[x]? = some addr ∧ (∀ y < x, addrs[y]? ≠ some addr) ∧ read x = .ok d := by
  rw [findFirst] at h
  cases hf : addrs.findIdx? (· = addr) with
  | none =>
    simp only [hf] at h
    cases h
  | some x =>
    simp only [hf] at h
    obtain ⟨e, he, hd⟩ := ok_of_map_ok h
    cases hd
    obtain ⟨hx, hfirst⟩ := findIdx?_some hf
    exact ⟨x, hx, hfirst, he⟩

lemma findFirst_at {x : ℕ} {d : α} (hx : addrs[x]? = some addr)
    (hfirst : ∀ y < x, addrs[y]? ≠ some addr) (hread : read x = .ok d) :
    findFirst addrs addr read = .ok (some d) := by
  rw [findFirst]
  cases hf : addrs.findIdx? (· = addr) with
  | none => exact absurd hx (findIdx?_none hf x)
  | some y =>
    obtain ⟨hy, hfirst'⟩ := findIdx?_some hf
    have hle : ¬ x < y := fun hlt => hfirst' x hlt hx
    have hge : ¬ y < x := fun hlt => hfirst y hlt hy
    obtain rfl : y = x := by omega
    simp only [hread]
    rfl

lemma findFirst_total (addr : ℕ) (h : ∀ x < addrs.length, ∃ d, read x = .ok d) :
    ∃ r, findFirst addrs addr read = .ok r := by
  rw [findFirst]
  cases hf : addrs.findIdx? (· = addr) with
  | none => exact ⟨none, rfl⟩
  | some x =>
    obtain ⟨d, hd⟩ := h x (List.findIdx?_eq_some_iff_getElem.mp hf).1
    exact ⟨some d, by simp only [hd]; rfl⟩

lemma findAt_ok {found : Found} (h : findAt t addr = .ok found) :
    dumpFindExport t addr = .ok found.exp ∧ dumpFindImport t addr = .ok found.imp ∧
      dumpFindRsrcString t addr = found.rsrc := by
  rw [findAt] at h
  cases he : dumpFindExport t addr with
  | error message => simp [he, bind, Except.bind] at h
  | ok exp =>
    cases hi : dumpFindImport t addr with
    | error message => simp [he, hi, bind, Except.bind] at h
    | ok imp =>
      simp only [he, hi, bind, Except.bind, pure, Except.pure, Except.ok.injEq] at h
      subst h
      exact ⟨rfl, rfl, rfl⟩

lemma findAt_total (hexp : ∀ x < t.exports.funcAddr.length, ∃ d, dumpExportAt t x = .ok d)
    (himp : ∀ x < t.imports.impAddr.length, ∃ d, dumpImportAt t x = .ok d) (addr : ℕ) :
    ∃ found, findAt t addr = .ok found := by
  obtain ⟨exp, he⟩ := findFirst_total addr hexp
  obtain ⟨imp, hi⟩ := findFirst_total addr himp
  refine ⟨⟨exp, imp, dumpFindRsrcString t addr⟩, ?_⟩
  rw [findAt, dumpFindExport, dumpFindImport, he, hi]
  rfl

lemma findImport_none (h : dumpFindImport t addr = .ok none) (x : ℕ) : ¬ SlotAt t x addr :=
  findFirst_none h x

lemma findImport_some {d : DumpImport} (h : dumpFindImport t addr = .ok (some d)) :
    ∃ x, SlotAt t x addr ∧ dumpImportAt t x = .ok d := by
  obtain ⟨x, hx, -, hread⟩ := findFirst_some h
  exact ⟨x, hx, hread⟩

lemma findRsrc_none (h : dumpFindRsrcString t addr = none) (x n : ℕ) :
    ¬ BlockAt t x addr n := by
  rw [dumpFindRsrcString] at h
  cases hf : t.rsrcStrings.addr.findIdx? (· = addr) with
  | none => exact fun hb => findIdx?_none hf x hb.1
  | some y => simp [hf] at h

lemma findRsrc_some {d : DumpRsrcString} (h : dumpFindRsrcString t addr = some d) :
    ∃ x, BlockAt t x addr d.size ∧ d.id = t.rsrcStrings.id.getD x 0 ∧
      ∀ y < x, ∀ n, ¬ BlockAt t y addr n := by
  rw [dumpFindRsrcString] at h
  cases hf : t.rsrcStrings.addr.findIdx? (· = addr) with
  | none => simp [hf] at h
  | some x =>
    simp only [hf, Option.some.injEq] at h
    subst h
    obtain ⟨hx, hlt⟩ := findIdx?_some hf
    exact ⟨x, ⟨hx, rfl⟩, rfl, fun y hy n hb => hlt y hy hb.1⟩

lemma Found.dump_false {found : Found} (h : found.dump = false) :
    found.exp = none ∧ found.imp = none ∧ found.rsrc = none := by
  simpa [Found.dump, and_assoc] using h

lemma dumpFound_size (pos : ℕ) (found : Found) : (dumpFound win sec pos found).2 =
    (if found.imp.isSome then 4 else 0) + (found.rsrc.map DumpRsrcString.size).getD 0 := by
  cases he : found.exp <;> cases hi : found.imp <;> cases hr : found.rsrc <;>
    simp [dumpFound, dumpDoExport, dumpDoImport, dumpDoRsrcString, he, hi, hr]

/-- A visited position holds a slot, or a non-empty block, or nothing that takes up room. -/
inductive VisitKind (t : Tables) (sec : PeSection) (pos : ℕ) (found : Found) : ℕ → Prop
  | slot {x d} : SlotAt t x (sec.address + pos) → dumpImportAt t x = .ok d →
      found.imp = some d → (∀ r, found.rsrc = some r → r.size = 0) → VisitKind t sec pos found 4
  | block {y r} : (∀ x, ¬ SlotAt t x (sec.address + pos)) → found.imp = none →
      found.rsrc = some r → r.size ≠ 0 → BlockAt t y (sec.address + pos) r.size →
      VisitKind t sec pos found r.size
  | plain : (∀ x, ¬ SlotAt t x (sec.address + pos)) → found.imp = none →
      (∀ r, found.rsrc = some r → r.size = 0) → VisitKind t sec pos found 0

lemma VisitKind.item {pos size : ℕ} {found : Found} (h : VisitKind t sec pos found size)
    (hs : size ≠ 0) : ∃ i, ItemAt t i (sec.address + pos) size := by
  cases h with
  | slot hx hd hi hempty => exact ⟨.inl _, hx, rfl⟩
  | block hslot hi hr hn hy => exact ⟨.inr _, hy, hn⟩
  | plain hslot hi hempty => exact absurd rfl hs

variable {pos lastPos : ℕ} {found : Found}

lemma Tidy.visitKind (ht : Tidy t sec) (win : Bool) (hle : pos ≤ sec.vsize)
    (hf : findAt t (sec.address + pos) = .ok found) :
    VisitKind t sec pos found (dumpFound win sec pos found).2 := by
  obtain ⟨_, himp, hrsrc⟩ := findAt_ok hf
  have hv : Visits sec (sec.address + pos) := ⟨by omega, by omega⟩
  rw [dumpFound_size]
  cases hi : found.imp with
  | none =>
    rw [hi] at himp
    have hslot := findImport_none himp
    cases hr : found.rsrc with
    | none => exact .plain hslot hi (by simp [hr])
    | some r =>
      rw [hr] at hrsrc
      obtain ⟨y, hy, _, _⟩ := findRsrc_some hrsrc
      by_cases hn : r.size = 0
      · have hempty : ∀ r, found.rsrc = some r → r.size = 0 := by simp [hr, hn]
        simpa [hn] using VisitKind.plain hslot hi hempty
      · simpa using VisitKind.block hslot hi hr hn hy
  | some d =>
    rw [hi] at himp
    obtain ⟨x, hx, hd⟩ := findImport_some himp
    have hempty : ∀ r, found.rsrc = some r → r.size = 0 := by
      intro r hr
      rw [hr] at hrsrc
      obtain ⟨y, hy, _, _⟩ := findRsrc_some hrsrc
      by_contra hn
      have := ht.apart (.inl x) (.inr y) _ _ _ _ (by simp) ⟨hx, rfl⟩ ⟨hy, hn⟩ hv hv
      omega
    cases hr : found.rsrc with
    | none => simpa using VisitKind.slot hx hd hi hempty
    | some r => simpa [hempty r hr] using VisitKind.slot hx hd hi hempty

/-- A visit moves on, but never over the start of an item. -/
lemma Tidy.afterVisit_le (ht : Tidy t sec) (win : Bool) (hle : pos ≤ sec.vsize)
    (hf : findAt t (sec.address + pos) = .ok found) {i : ℕ ⊕ ℕ} {a n : ℕ}
    (hi : ItemAt t i a n) (hlo : sec.address + pos < a) (hhi : a ≤ sec.address + sec.vsize) :
    sec.address + (afterVisit pos (dumpFound win sec pos found).2).1 ≤ a := by
  have hk := ht.visitKind win hle hf
  by_cases hz : (dumpFound win sec pos found).2 = 0
  · simp only [afterVisit, if_pos hz]
    omega
  · obtain ⟨j, hj⟩ := hk.item hz
    have hne : j ≠ i := by
      rintro rfl
      cases j with
      | inl x =>
        have := Option.some.inj (hj.1.symm.trans hi.1)
        omega
      | inr y =>
        have := Option.some.inj (hj.1.1.symm.trans hi.1.1)
        omega
    have := ht.apart j i _ a _ n hne hj hi ⟨by omega, by omega⟩ ⟨by omega, hhi⟩
    have hpos : n ≠ 0 := by
      cases i with
      | inl x => exact hi.2 ▸ by decide
      | inr y => exact hi.2
    simp only [afterVisit, if_neg hz]
    omega

lemma afterVisit_lt (pos size : ℕ) : pos < (afterVisit pos size).1 := by
  unfold afterVisit
  split_ifs with hsize
  · exact Nat.lt_succ_self pos
  · exact Nat.lt_add_of_pos_right (Nat.pos_of_ne_zero hsize)

lemma Tidy.slot_unique (ht : Tidy t sec) {x y a : ℕ} (hx : SlotAt t x a) (hy : SlotAt t y a)
    (hv : Visits sec a) : x = y := by
  by_contra hne
  have := ht.apart (.inl x) (.inl y) a a 4 4 (by simpa using hne) ⟨hx, rfl⟩ ⟨hy, rfl⟩ hv hv
  omega

lemma findAt_room (win : Bool) {pos : ℕ} {found : Found} (h : findAt t (sec.address + pos) = .ok found) :
    (dumpFound win sec pos found).2 = room t (sec.address + pos) := by
  obtain ⟨_, himp, hrsrc⟩ := findAt_ok h
  rw [dumpFound_size, room, hrsrc]
  congr 1
  cases hi : found.imp with
  | none =>
    have hnot : sec.address + pos ∉ t.imports.impAddr := by
      intro hmem
      obtain ⟨x, hx⟩ := List.mem_iff_getElem?.mp hmem
      exact findImport_none (hi ▸ himp) x hx
    simp [hnot]
  | some d =>
    obtain ⟨x, hx, _⟩ := findImport_some (hi ▸ himp)
    have hmem : sec.address + pos ∈ t.imports.impAddr := List.mem_of_getElem? hx
    simp [hmem]

lemma Found.dump_false_size {pos : ℕ} {found : Found} (h : found.dump = false) :
    (dumpFound win sec pos found).2 = 0 := by
  obtain ⟨_, hi, hr⟩ := Found.dump_false h
  rw [dumpFound_size, hi, hr]
  rfl

lemma Reached.le {pos p : ℕ} (h : Reached t sec pos p) : pos ≤ p := by
  induction h with
  | here => exact le_rfl
  | @next pos p _ _ ih => exact (afterVisit_lt pos (room t (sec.address + pos))).le.trans ih

lemma sectionLoop_reached (win : Bool) (pos lastPos : ℕ)
    (h : ∀ p ≤ sec.vsize, Reached t sec pos p → ∃ found, findAt t (sec.address + p) = .ok found) :
    ∃ ds, sectionLoop t win sec pos lastPos = .ok ds := by
  fun_induction sectionLoop t win sec pos lastPos with
  | case1 pos lastPos hle message he =>
    obtain ⟨found, hok⟩ := h pos hle .here
    rw [he] at hok
    cases hok
  | case2 pos lastPos hle found hf hskip ih =>
    refine ih fun p hp hreach => h p hp (.next hle ?_)
    rwa [← findAt_room win hf, Found.dump_false_size hskip.1]
  | case3 pos lastPos hle found hf hvisit lines next ihjump ihstep =>
    have hroom : next = pos + room t (sec.address + pos) := by
      rw [← findAt_room win hf]
    by_cases hn : next = pos
    · obtain ⟨ds, hds⟩ := ihstep (by simpa using hn) fun p hp hreach => h p hp (.next hle (by
        rwa [afterVisit, if_pos (by omega)]))
      exact ⟨_, by rw [dif_neg (by simpa using hn), hds]; rfl⟩
    · obtain ⟨ds, hds⟩ := ihjump hn fun p hp hreach => h p hp (.next hle (by
        rwa [afterVisit, if_neg (by omega), ← hroom]))
      exact ⟨_, by rw [dif_pos hn, hds]; rfl⟩
  | case4 pos lastPos hgt => exact ⟨[], rfl⟩

end Metroskrew.Relink
