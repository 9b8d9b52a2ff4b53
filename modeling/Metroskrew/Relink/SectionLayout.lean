import Metroskrew.Library.Window
import Metroskrew.Relink.SectionRun

/-! The lines of one section assemble to exactly the bytes of that section. -/

namespace Metroskrew.Relink

open Metroskrew.Library.Window

inductive OutByte where
  | raw (b : UInt8)
  | sym (symbol : CString) (k : ℕ)
  deriving Repr, DecidableEq

def longBytes (n : ℕ) : List OutByte :=
  (List.range 4).map fun k => .raw (n / 256 ^ k).toUInt8

def symbolBytes (symbol : CString) : List OutByte := (List.range 4).map (.sym symbol)

def rsrcSymbol (id : ℕ) : CString :=
  ascii "pe_rsrc_strings_" ++ (Nat.toDigits 10 id).map fun c => c.toNat.toUInt8

def Directive.expand (f : ℕ → UInt8) : Directive → List OutByte
  | .incbin off len => window (fun i => .raw (f i)) off len
  | .zero len => List.replicate len (.raw 0)
  | .long symbol => symbolBytes symbol
  | .rsrcString _ off len => window (fun i => .raw (f i)) off len
  | .rsrcEntry id => longBytes id ++ symbolBytes (rsrcSymbol id)
  | .rsrcEnd => longBytes 0
  | .globl _ | .label _ | .assign _ _ | .section _ _ _ => []

def expand (f : ℕ → UInt8) (lines : List Directive) : List OutByte :=
  lines.flatMap fun line => line.expand f

@[simp] lemma expand_nil (f : ℕ → UInt8) : expand f [] = [] := rfl

@[simp] lemma expand_append (f : ℕ → UInt8) (xs ys : List Directive) :
    expand f (xs ++ ys) = expand f xs ++ expand f ys := by simp [expand]

/-- Nothing starts at the end of the section, and no block reaches past its raw data. -/
structure Fits (t : Tables) (sec : PeSection) : Prop extends Tidy t sec where
  not_at_end : ∀ i a n, ItemAt t i a n → a ≠ sec.address + sec.vsize
  block_raw : ∀ y b n, BlockAt t y b n → n ≠ 0 → Visits sec b → b + n ≤ sec.address + sec.dsize

/-- The slot at address `a` belongs to the section and holds its byte `i`. -/
def Covers (sec : PeSection) (i a : ℕ) : Prop :=
  sec.address ≤ a ∧ a ≤ sec.address + i ∧ sec.address + i < a + 4

instance (sec : PeSection) (i a : ℕ) : Decidable (Covers sec i a) :=
  inferInstanceAs (Decidable (_ ∧ _ ∧ _))

variable (f : ℕ → UInt8) (t : Tables) (win : Bool) (sec : PeSection)

def fileByte (i : ℕ) : UInt8 := if i < sec.dsize then f (sec.offset + i) else 0

/-- Byte `i` of the section as the program is loaded, imports resolved. -/
def sectionByte (i : ℕ) : OutByte :=
  match t.imports.impAddr.findIdx? (fun a => Covers sec i a) with
  | none => .raw (fileByte f sec i)
  | some x =>
    match dumpImportAt t x with
    | .ok d => .sym (importSymbol win d) (sec.address + i - t.imports.impAddr.getD x 0)
    | .error _ => .raw (fileByte f sec i)

/-- No slot that starts before `pos` reaches past `lastPos`. -/
def Clear (pos lastPos : ℕ) : Prop :=
  ∀ x a, SlotAt t x a → sec.address ≤ a → a < sec.address + pos → a + 4 ≤ sec.address + lastPos

variable {f t win sec}

lemma sectionByte_plain {i : ℕ} (h : ∀ x a, SlotAt t x a → ¬ Covers sec i a) :
    sectionByte f t win sec i = .raw (fileByte f sec i) := by
  rw [sectionByte, List.findIdx?_eq_none_iff.mpr]
  intro a ha
  obtain ⟨x, hx⟩ := List.getElem?_of_mem ha
  simpa using h x a hx

lemma sectionByte_clear {pos lastPos i : ℕ} (h : Clear t sec pos lastPos) (hl : lastPos ≤ i)
    (hp : i < pos) : sectionByte f t win sec i = .raw (fileByte f sec i) := by
  apply sectionByte_plain
  rintro x a hx ⟨hlo, ha, hi⟩
  have := h x a hx hlo (by omega)
  omega

lemma sectionByte_slot (hfit : Fits t sec) {x a i : ℕ} {d : DumpImport}
    (hx : SlotAt t x a) (hd : dumpImportAt t x = .ok d) (hi : i < sec.vsize)
    (hc : Covers sec i a) :
    sectionByte f t win sec i = .sym (importSymbol win d) (sec.address + i - a) := by
  rw [sectionByte]
  cases hf : t.imports.impAddr.findIdx? (fun a => Covers sec i a) with
  | none =>
    have := List.findIdx?_eq_none_iff.mp hf a (List.mem_of_getElem? hx)
    exact absurd hc (by simpa using this)
  | some y =>
    obtain ⟨hy, hcy, _⟩ := List.findIdx?_eq_some_iff_getElem.mp hf
    obtain ⟨hlo', ha', hi'⟩ := of_decide_eq_true hcy
    obtain ⟨hlo, ha, hia⟩ := hc
    have hxy : y = x := by
      by_contra hne
      have := hfit.apart (.inl y) (.inl x) _ a 4 4 (by simpa using hne)
        ⟨List.getElem?_eq_getElem hy, rfl⟩ ⟨hx, rfl⟩ ⟨hlo', by omega⟩ ⟨hlo, by omega⟩
      omega
    subst hxy
    have hg : t.imports.impAddr.getD y 0 = a := by
      rw [List.getD_eq_getElem?_getD, hx, Option.getD_some]
    simp only [hd, hg]

lemma expand_flush (image : ℕ → OutByte) {lastPos pos : ℕ} (hle : lastPos ≤ pos)
    (hplain : ∀ i, lastPos ≤ i → i < pos → image i = .raw (fileByte f sec i)) :
    expand f (flushTo sec lastPos pos) = window image lastPos (pos - lastPos) := by
  have hfile : ∀ n, lastPos + n ≤ pos → lastPos + n ≤ sec.dsize →
      window (fun i => .raw (f i)) (sec.offset + lastPos) n = window image lastPos n := by
    intro n hn hd
    rw [← window_shift (fun i => OutByte.raw (f i))]
    apply window_congr
    intro i hi hin
    rw [hplain i hi (by omega), fileByte, if_pos (by omega)]
  have hzero : ∀ a n, lastPos ≤ a → sec.dsize ≤ a → a + n ≤ pos →
      List.replicate n (.raw 0) = window image a n := by
    intro a n ha hd hn
    rw [window_replicate]
    intro i hi hin
    rw [hplain i (by omega) (by omega), fileByte, if_neg (by omega)]
  rw [flushTo]
  split_ifs with h1 h2 h3
  · rw [h1, expand_nil, Nat.sub_self, window_zero]
  · simpa [expand, Directive.expand] using hfile (pos - lastPos) (by omega) (by omega)
  · simp only [expand, Directive.expand, List.flatMap_cons, List.flatMap_nil, List.append_nil]
    rw [hfile _ (by omega) (by omega), hzero sec.dsize _ (by omega) (by omega) (by omega),
      window_split image (by omega) (by omega)]
  · simpa [expand, Directive.expand] using hzero lastPos (pos - lastPos) (by omega) (by omega)
      (by omega)

lemma dumpFound_expand (pos : ℕ) (found : Found) :
    expand f (dumpFound win sec pos found).1 =
      (found.imp.map fun d => symbolBytes (importSymbol win d)).getD [] ++
        (found.rsrc.map fun d => window (fun i => .raw (f i)) (sec.offset + pos) d.size).getD [] := by
  have hexp : ∀ d, expand f (dumpDoExport d).1 = [] := by
    intro d
    cases h : d.name <;> simp [dumpDoExport, h, expand, Directive.expand]
  cases he : found.exp <;> cases hi : found.imp <;> cases hr : found.rsrc <;>
    simp [dumpFound, hexp, he, hi, hr, dumpDoImport, dumpDoRsrcString] <;>
    simp [expand, Directive.expand]

lemma symbolBytes_window (hfit : Fits t sec) {x pos : ℕ} {d : DumpImport}
    (hx : SlotAt t x (sec.address + pos)) (hd : dumpImportAt t x = .ok d)
    (hin : pos + 4 ≤ sec.vsize) :
    symbolBytes (importSymbol win d) = window (sectionByte f t win sec) pos 4 := by
  have hb : ∀ k < 4, sectionByte f t win sec (pos + k) = .sym (importSymbol win d) k := by
    intro k hk
    rw [sectionByte_slot hfit hx hd (by omega) ⟨by omega, by omega, by omega⟩]
    congr 1
    omega
  simp [symbolBytes, window, List.range_succ, List.range'_succ, ← hb]

lemma Fits.visit_expand (hfit : Fits t sec) (win : Bool) {pos lastPos : ℕ} {found : Found}
    (hle : pos ≤ sec.vsize) (hf : findAt t (sec.address + pos) = .ok found)
    (hclear : Clear t sec pos lastPos) (hl : lastPos ≤ pos) :
    expand f (dumpFound win sec pos found).1 =
        window (sectionByte f t win sec) pos (dumpFound win sec pos found).2 ∧
      pos + (dumpFound win sec pos found).2 ≤ sec.vsize := by
  rw [dumpFound_expand]
  generalize hs : (dumpFound win sec pos found).2 = size
  have hk : VisitKind t sec pos found size := hs ▸ hfit.visitKind win hle hf
  have hv : Visits sec (sec.address + pos) := ⟨by omega, by omega⟩
  have hin : pos + size ≤ sec.vsize := by
    by_cases hz : size = 0
    · omega
    · obtain ⟨i, hi⟩ := hk.item hz
      have hend := hfit.not_at_end i _ _ hi
      have := hfit.inside i _ _ hi (by omega) (by omega)
      omega
  have hnone : ∀ r : DumpRsrcString, r.size = 0 →
      window (fun i => OutByte.raw (f i)) (sec.offset + pos) r.size = [] := by
    intro r hr
    rw [hr, window_zero]
  refine ⟨?_, hin⟩
  cases hk with
  | slot hx hd hi hempty =>
    rw [← symbolBytes_window hfit hx hd (by omega), hi]
    cases hr : found.rsrc with
    | none => simp
    | some r => simp [hnone r (hempty r hr)]
  | @block y r hslot hi hr hn hy =>
    have hraw := hfit.block_raw _ _ _ hy hn hv
    simp only [hi, hr, Option.map_none, Option.getD_none, List.nil_append, Option.map_some,
      Option.getD_some]
    rw [← window_shift (fun i => OutByte.raw (f i))]
    apply window_congr
    intro i hi hin'
    rw [sectionByte_plain, fileByte, if_pos (by omega)]
    rintro x a hx ⟨hlo, ha, hai⟩
    have hapart := hfit.apart (.inl x) (.inr y) a _ 4 _ (by simp) ⟨hx, rfl⟩ ⟨hy, hn⟩
      ⟨hlo, by omega⟩ hv
    have hbefore := hclear x a hx hlo
    omega
  | plain hslot hi hempty =>
    cases hr : found.rsrc with
    | none => simp [hi]
    | some r => simp [hi, hnone r (hempty r hr)]

lemma Fits.visit_clear (hfit : Fits t sec) (win : Bool) {pos lastPos : ℕ} {found : Found}
    (hle : pos ≤ sec.vsize) (hf : findAt t (sec.address + pos) = .ok found)
    (hclear : Clear t sec pos lastPos) (hl : lastPos ≤ pos)
    (hend : pos + (dumpFound win sec pos found).2 ≤ sec.vsize) :
    Clear t sec (afterVisit pos (dumpFound win sec pos found).2).1
      (afterVisit pos (dumpFound win sec pos found).2).2 := by
  intro z c hz hlo hlt
  have hbefore := hclear z c hz hlo
  have hhi : c ≤ sec.address + sec.vsize := by
    unfold afterVisit at hlt
    split_ifs at hlt <;> simp only at hlt <;> omega
  have hk := hfit.visitKind win hle hf
  by_cases hc : sec.address + pos < c
  · have := hfit.afterVisit_le win (i := .inl z) hle hf ⟨hz, rfl⟩ hc hhi
    omega
  · generalize (dumpFound win sec pos found).2 = size at hk hlt
    cases hk with
    | slot hx hd hi hempty =>
      simp only [afterVisit, if_neg (show ¬ 4 = 0 by decide)]
      omega
    | block hslot hi hr hn hy =>
      have hne : c ≠ sec.address + pos := by
        rintro rfl
        exact hslot z hz
      simp only [afterVisit, if_neg hn]
      omega
    | plain hslot hi hempty =>
      have hne : c ≠ sec.address + pos := by
        rintro rfl
        exact hslot z hz
      simp only [afterVisit, if_pos]
      omega

lemma skip_clear {pos lastPos : ℕ} {found : Found}
    (hf : findAt t (sec.address + pos) = .ok found) (hd : found.dump = false)
    (hclear : Clear t sec pos lastPos) : Clear t sec (pos + 1) lastPos := by
  obtain ⟨_, himp, _⟩ := findAt_ok hf
  rw [(Found.dump_false hd).2.1] at himp
  intro z c hz hlo hlt
  have hne : c ≠ sec.address + pos := by
    rintro rfl
    exact findImport_none himp z hz
  exact hclear z c hz hlo (by omega)

/-- The invariant of the loop: what is still to be written is the section from `lastPos` on. -/
lemma run_expand (hfit : Fits t sec) {pos lastPos : ℕ} {ds : List (ℕ × Directive)}
    (h : Run t win sec pos lastPos ds) (hl : lastPos ≤ pos) (hv : lastPos ≤ sec.vsize)
    (hp : pos ≤ sec.vsize ∨ lastPos = sec.vsize) (hclear : Clear t sec pos lastPos) :
    expand f (ds.map Prod.snd) =
      window (sectionByte f t win sec) lastPos (sec.vsize - lastPos) := by
  induction h with
  | @done pos lastPos hgt =>
    have hz : sec.vsize - lastPos = 0 := by omega
    rw [List.map_nil, expand_nil, hz, window_zero]
  | skip hlt hf hd _ ih =>
    exact ih (by omega) hv (.inl (by omega)) (skip_clear hf hd hclear)
  | @visit pos lastPos found ds hle hf _ ih =>
    obtain ⟨hitems, hend⟩ := hfit.visit_expand (f := f) win hle hf hclear hl
    have hnext := hfit.visit_clear win hle hf hclear hl hend
    have hflush := expand_flush (sectionByte f t win sec) hl
      (fun i hi hip => sectionByte_clear hclear hi hip)
    have htail : expand f (ds.map Prod.snd) = window (sectionByte f t win sec)
        (pos + (dumpFound win sec pos found).2)
        (sec.vsize - (pos + (dumpFound win sec pos found).2)) := by
      by_cases hz : (dumpFound win sec pos found).2 = 0
      · simp only [afterVisit, if_pos hz] at ih hnext
        simpa [hz] using ih (by omega) (by omega) (by omega) hnext
      · simp only [afterVisit, if_neg hz] at ih hnext
        exact ih le_rfl hend (.inl hend) hnext
    rw [List.map_append, List.map_map, show Prod.snd ∘ (fun line : Directive => (pos, line)) = id
      from rfl, List.map_id, visitLines, expand_append, expand_append, hflush, hitems, htail,
      List.append_assoc]
    have hs := window_split (sectionByte f t win sec) (a := pos)
      (b := pos + (dumpFound win sec pos found).2) (c := sec.vsize) (by omega) hend
    rw [Nat.add_sub_cancel_left] at hs
    rw [hs, window_split _ hl hle]

lemma run_import (hfit : Tidy t sec) {pos lastPos : ℕ} {ds : List (ℕ × Directive)}
    (h : Run t win sec pos lastPos ds) {x a : ℕ} (hx : SlotAt t x a)
    (hlo : sec.address + pos ≤ a) (hhi : a ≤ sec.address + sec.vsize) :
    ∃ d, dumpImportAt t x = .ok d := by
  induction h with
  | done hgt => omega
  | @skip pos lastPos found ds hlt hf hd _ ih =>
    obtain ⟨_, himp, _⟩ := findAt_ok hf
    rw [(Found.dump_false hd).2.1] at himp
    have hne : a ≠ sec.address + pos := by
      rintro rfl
      exact findImport_none himp x hx
    exact ih (by omega)
  | @visit pos lastPos found ds hle hf _ ih =>
    obtain ⟨_, himp, _⟩ := findAt_ok hf
    by_cases ha : a = sec.address + pos
    · subst ha
      cases hi : found.imp with
      | none => exact absurd hx (findImport_none (hi ▸ himp) x)
      | some d =>
        obtain ⟨y, hy, hd⟩ := findImport_some (hi ▸ himp)
        obtain rfl := hfit.slot_unique hx hy ⟨by omega, hhi⟩
        exact ⟨d, hd⟩
    · exact ih (hfit.afterVisit_le win (i := .inl x) hle hf ⟨hx, rfl⟩ (by omega) hhi)

/-- A section whose items fit it is written as its own bytes with the import slots resolved, and
the loop gives up only on a name it cannot read. -/
theorem section_layout (f : ℕ → UInt8) (t : Tables) (win : Bool) (sec : PeSection)
    (hfit : Fits t sec) :
    ((∀ x < t.exports.funcAddr.length, ∃ d, dumpExportAt t x = .ok d) →
      (∀ x < t.imports.impAddr.length, ∃ d, dumpImportAt t x = .ok d) →
      ∃ ds, sectionLoop t win sec 0 0 = .ok ds) ∧
    ∀ ds, sectionLoop t win sec 0 0 = .ok ds →
      (expand f (ds.map Prod.snd)).length = sec.vsize ∧
      ∀ i < sec.vsize,
        (∀ x a, SlotAt t x a → Covers sec i a → ∃ d, dumpImportAt t x = .ok d ∧
          (expand f (ds.map Prod.snd))[i]? =
            some (.sym (importSymbol win d) (sec.address + i - a))) ∧
        ((∀ x a, SlotAt t x a → ¬ Covers sec i a) →
          (expand f (ds.map Prod.snd))[i]? =
            some (.raw (if i < sec.dsize then f (sec.offset + i) else 0))) := by
  refine ⟨fun hexp himp => sectionLoop_reached win 0 0 fun _ _ _ => findAt_total hexp himp _, ?_⟩
  intro ds hds
  have hrun := sectionLoop_run t win sec 0 0 ds hds
  have hbytes := run_expand (f := f) hfit hrun le_rfl (by omega) (by omega)
    (fun x a _ hlo hlt => by omega)
  rw [Nat.sub_zero] at hbytes
  rw [hbytes]
  refine ⟨by simp, fun i hi => ⟨?_, ?_⟩⟩
  · intro x a hx hc
    have hhi : a ≤ sec.address + sec.vsize := by
      have := hc.2.1
      omega
    obtain ⟨d, hd⟩ := run_import hfit.toTidy hrun hx hc.1 hhi
    refine ⟨d, hd, ?_⟩
    rw [window_getElem? _ hi, Nat.zero_add, sectionByte_slot hfit hx hd hi hc]
  · intro hplain
    rw [window_getElem? _ hi, Nat.zero_add, sectionByte_plain hplain, fileByte]

def slotFile : PeFile where
  f := List.replicate 0x10 0 ++ [0x30] ++ List.replicate 0x17 0 ++ ascii "k" ++ [0] ++ ascii "f@4"
  headerOff := 0
  datadirOff := 0
  sectionsOff := 0
  sectionsNum := 1
  entrypoint := 0
  baseAddr := 0
  datadirNum := 0

def slotTables : Tables where
  file := slotFile
  exports := ⟨0x28, 1, 0, [0x1003], [0]⟩
  imports := ⟨1, 1, [0x1002], [0x28], [0x2a]⟩
  rsrcStrings := ⟨1, [7], [0x1000], [2]⟩

def slotSection : PeSection := ⟨ascii ".data", 8, 0x1000, 4, 0, true, true, false⟩

theorem section_layout_slot :
    ∃ ds, sectionLoop slotTables false slotSection 0 0 = .ok ds ∧
      (expand (fun i => i.toUInt8) (ds.map Prod.snd)).length = 8 ∧
      (expand (fun i => i.toUInt8) (ds.map Prod.snd))[1]? = some (.raw 1) ∧
      (expand (fun i => i.toUInt8) (ds.map Prod.snd))[6]? = some (.raw 0) := by
  have hslot : ∀ x a, SlotAt slotTables x a → a = 0x1002 ∧ x = 0 := by
    rintro (_ | x) a hx <;> simp [SlotAt, slotTables] at hx
    exact ⟨hx.symm, rfl⟩
  have hblock : ∀ y b n, BlockAt slotTables y b n → y = 0 ∧ b = 0x1000 ∧ n = 2 := by
    rintro (_ | y) b n ⟨hb, hn⟩ <;> simp [slotTables] at hb hn
    exact ⟨rfl, hb.symm, hn.symm⟩
  have hitem : ∀ i a n, ItemAt slotTables i a n →
      (i = .inl 0 ∧ a = 0x1002 ∧ n = 4) ∨ (i = .inr 0 ∧ a = 0x1000 ∧ n = 2) := by
    rintro (x | y) a n ⟨hi, hn⟩
    · obtain ⟨rfl, rfl⟩ := hslot x a hi
      exact .inl ⟨rfl, rfl, hn⟩
    · obtain ⟨rfl, rfl, rfl⟩ := hblock y a n hi
      exact .inr ⟨rfl, rfl, rfl⟩
  have hfit : Fits slotTables slotSection := by
    refine ⟨⟨?_, ?_⟩, ?_, ?_⟩
    · intro i a n hi
      rcases hitem i a n hi with ⟨rfl, rfl, rfl⟩ | ⟨rfl, rfl, rfl⟩ <;> simp [slotSection]
    · intro i j a b n m hne hi hj
      rcases hitem i a n hi with ⟨rfl, rfl, rfl⟩ | ⟨rfl, rfl, rfl⟩ <;>
        rcases hitem j b m hj with ⟨rfl, rfl, rfl⟩ | ⟨rfl, rfl, rfl⟩ <;> simp at hne ⊢
    · intro i a n hi
      rcases hitem i a n hi with ⟨rfl, rfl, rfl⟩ | ⟨rfl, rfl, rfl⟩ <;> simp [slotSection]
    · intro y b n hb
      obtain ⟨rfl, rfl, rfl⟩ := hblock y b n hb
      simp [slotSection]
  obtain ⟨htotal, hlayout⟩ :=
    section_layout (fun i => i.toUInt8) slotTables false slotSection hfit
  have hread : (∃ d, dumpExportAt slotTables 0 = .ok d) ∧ ∃ d, dumpImportAt slotTables 0 = .ok d :=
    ⟨⟨⟨0, ascii "k", none⟩, by decide +kernel⟩, ⟨⟨0, ascii "k", some (ascii "f@4")⟩, by decide +kernel⟩⟩
  obtain ⟨ds, hds⟩ := htotal
    (fun x hx => by obtain rfl : x = 0 := Nat.lt_one_iff.mp hx; exact hread.1)
    (fun x hx => by obtain rfl : x = 0 := Nat.lt_one_iff.mp hx; exact hread.2)
  obtain ⟨hlen, hbytes⟩ := hlayout ds hds
  have hout : ∀ i, i = 1 ∨ i = 6 → ∀ x a, SlotAt slotTables x a → ¬ Covers slotSection i a := by
    rintro i (rfl | rfl) x a hx <;> rw [(hslot x a hx).1] <;> decide
  exact ⟨ds, hds, hlen, (hbytes 1 (by decide)).2 (hout 1 (.inl rfl)),
    (hbytes 6 (by decide)).2 (hout 6 (.inr rfl))⟩

end Metroskrew.Relink
