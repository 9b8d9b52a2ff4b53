import Metroskrew.Library.Window

/-! The `patch` and `patch_end` macros of patch.i, run by the assembler over a list of uses. -/

namespace Metroskrew.Patch.PatchMacros

open Metroskrew.Library.Window

/-- The symbols `patch` and `patch.end`, and the bytes emitted since the label `pe_text`. -/
structure Asm where
  patch : ℕ
  patchEnd : ℕ
  out : List UInt8
  deriving Repr, DecidableEq

/-- One use `patch code, name`: `code`, `code.end` and the bytes the macro `name` assembles to. -/
structure Use where
  code : ℕ
  codeEnd : ℕ
  body : List UInt8
  deriving Repr, DecidableEq

def nop : UInt8 := 0x90

def fill (count : ℤ) (s : Asm) : Option Asm :=
  if 0 ≤ count then some { s with out := s.out ++ List.replicate count.toNat nop } else none

variable (file : ℕ → UInt8) (peTextOff peTextLen : ℕ)

def incbin (off : ℕ) (len : ℤ) (s : Asm) : Option Asm :=
  if 0 ≤ len then some { s with out := s.out ++ window file off len.toNat } else none

def patch (s : Asm) (u : Use) : Option Asm := do
  let s ← fill ((s.patchEnd : ℤ) - peTextOff - s.out.length) s
  let s ← incbin file s.patchEnd ((u.code : ℤ) - s.patchEnd) s
  some { patch := u.code, patchEnd := u.codeEnd, out := s.out ++ u.body }

def patchEnd (s : Asm) : Option Asm := do
  let s ← fill ((s.patchEnd : ℤ) - peTextOff - s.out.length) s
  incbin file s.patchEnd ((peTextOff : ℤ) + peTextLen - s.patchEnd) s

def peText (uses : List Use) : Option (List UInt8) := do
  let s ← uses.foldlM (patch file peTextOff) ⟨peTextOff, peTextOff, []⟩
  let s ← patchEnd file peTextOff peTextLen s
  some s.out

/-- The uses leave no overlap: each block starts after the previous one and holds its body. -/
def Ordered (lo hi : ℕ) : List Use → Prop
  | [] => lo ≤ hi
  | u :: us => lo ≤ u.code ∧ u.code + u.body.length ≤ u.codeEnd ∧ Ordered u.codeEnd hi us

instance decidableOrdered (lo hi : ℕ) (us : List Use) : Decidable (Ordered lo hi us) :=
  match us with
  | [] => inferInstanceAs (Decidable (lo ≤ hi))
  | u :: us =>
    haveI := decidableOrdered u.codeEnd hi us
    inferInstanceAs (Decidable (_ ∧ _ ∧ _))

def Use.covers (u : Use) (j : ℕ) : Prop := u.code ≤ j ∧ j < u.codeEnd

instance (u : Use) (j : ℕ) : Decidable (u.covers j) := inferInstanceAs (Decidable (_ ∧ _))

def Use.byte (u : Use) (j : ℕ) : UInt8 := u.body.getD (j - u.code) nop

def patchedByte (uses : List Use) (j : ℕ) : UInt8 :=
  match uses.find? (fun u => u.covers j) with
  | some u => u.byte j
  | none => file j

variable {file peTextOff peTextLen}

lemma Ordered.le {lo hi : ℕ} {us : List Use} (h : Ordered lo hi us) : lo ≤ hi := by
  induction us generalizing lo with
  | nil => exact h
  | cons u us ih =>
    obtain ⟨hlo, hbody, hrest⟩ := h
    have := ih hrest
    omega

lemma Ordered.lo_le_code {lo hi : ℕ} {us : List Use} (h : Ordered lo hi us) :
    ∀ u ∈ us, lo ≤ u.code := by
  induction us generalizing lo with
  | nil => simp
  | cons u us ih =>
    obtain ⟨hlo, hbody, hrest⟩ := h
    intro v hv
    rcases List.mem_cons.mp hv with rfl | hv
    · exact hlo
    · have := ih hrest v hv
      omega

lemma Ordered.codeEnd_le {lo hi : ℕ} {us : List Use} (h : Ordered lo hi us) :
    ∀ u ∈ us, u.code + u.body.length ≤ u.codeEnd ∧ u.codeEnd ≤ hi := by
  induction us generalizing lo with
  | nil => simp
  | cons u us ih =>
    obtain ⟨hlo, hbody, hrest⟩ := h
    intro v hv
    rcases List.mem_cons.mp hv with rfl | hv
    · exact ⟨hbody, hrest.le⟩
    · exact ih hrest v hv

lemma patchedByte_outside {uses : List Use} {j : ℕ} (h : ∀ u ∈ uses, ¬ u.covers j) :
    patchedByte file uses j = file j := by
  rw [patchedByte, List.find?_eq_none.mpr (by simpa using h)]

lemma patchedByte_block {lo hi : ℕ} {uses : List Use} (h : Ordered lo hi uses) {u : Use}
    (hu : u ∈ uses) {j : ℕ} (hj : u.covers j) : patchedByte file uses j = u.byte j := by
  induction uses generalizing lo with
  | nil => simp at hu
  | cons v us ih =>
    obtain ⟨hlo, hbody, hrest⟩ := h
    rcases List.mem_cons.mp hu with rfl | hu
    · simp [patchedByte, hj]
    · have hv : ¬ v.covers j := by
        have := hrest.lo_le_code u hu
        rintro ⟨_, hv⟩
        exact absurd hj.1 (by omega)
      have hi := ih hrest hu
      simpa [patchedByte, List.find?_cons, hv] using hi

/-- What the location counter has reached: everything emitted is the image `f`, and the open
block reaches up to `patch.end`. -/
structure Tracks (f : ℕ → UInt8) (peTextOff : ℕ) (s : Asm) : Prop where
  emitted : s.out = window f peTextOff s.out.length
  reached : peTextOff + s.out.length ≤ s.patchEnd
  padding : ∀ j, peTextOff + s.out.length ≤ j → j < s.patchEnd → f j = nop

lemma window_snoc {f g : ℕ → UInt8} {a b c : ℕ} (hab : a ≤ b) (hbc : b ≤ c) {out : List UInt8}
    (ho : out = window f a (b - a)) (hg : ∀ j, b ≤ j → j < c → g j = f j) :
    out ++ window g b (c - b) = window f a (c - a) := by
  rw [ho, window_congr (f := g) (g := f) (fun j hj hc => hg j hj (by omega)), window_split f hab hbc]

lemma Tracks.close {f : ℕ → UInt8} {s : Asm} (h : Tracks f peTextOff s) {next : ℕ}
    (hn : s.patchEnd ≤ next) (hgap : ∀ j, s.patchEnd ≤ j → j < next → f j = file j) :
    (fill ((s.patchEnd : ℤ) - peTextOff - s.out.length) s).bind
        (fun t => incbin file t.patchEnd ((next : ℤ) - t.patchEnd) t) =
      some { s with out := window f peTextOff (next - peTextOff) } := by
  obtain ⟨he, hr, hp⟩ := h
  have hf : (0 : ℤ) ≤ (s.patchEnd : ℤ) - peTextOff - s.out.length := by omega
  have hc : ((s.patchEnd : ℤ) - peTextOff - s.out.length).toNat =
      s.patchEnd - (peTextOff + s.out.length) := by omega
  have hl : (0 : ℤ) ≤ (next : ℤ) - s.patchEnd := by omega
  have hlc : ((next : ℤ) - s.patchEnd).toNat = next - s.patchEnd := by omega
  have hfill : s.out ++ List.replicate (s.patchEnd - (peTextOff + s.out.length)) nop =
      window f peTextOff (s.patchEnd - peTextOff) := by
    rw [← window_replicate (f := f) (a := peTextOff + s.out.length)
      (fun j hj hb => hp j hj (by omega))]
    refine window_snoc (by omega) hr ?_ (fun _ _ _ => rfl)
    rwa [Nat.add_sub_cancel_left]
  simp only [fill, if_pos hf, Option.bind_some, incbin, if_pos hl, hc, hlc, hfill]
  rw [window_snoc (by omega) hn rfl (fun j hj hb => (hgap j hj hb).symm)]

lemma Tracks.patch {f : ℕ → UInt8} {s : Asm} (h : Tracks f peTextOff s) {u : Use}
    (hn : s.patchEnd ≤ u.code) (hbody : u.code + u.body.length ≤ u.codeEnd)
    (hgap : ∀ j, s.patchEnd ≤ j → j < u.code → f j = file j)
    (hblock : ∀ j, u.covers j → f j = u.byte j) :
    ∃ t, patch file peTextOff s u = some t ∧ t.patchEnd = u.codeEnd ∧ Tracks f peTextOff t := by
  have hoff := h.reached
  have hclose := h.close hn hgap
  have hb : u.body = window f u.code u.body.length := by
    apply List.ext_getElem (by simp)
    intro k hk _
    rw [← Option.some_inj, ← List.getElem?_eq_getElem, ← List.getElem?_eq_getElem,
      window_getElem? f hk, hblock (u.code + k) ⟨by omega, by omega⟩]
    simp [Use.byte, List.getElem?_eq_getElem hk]
  have hout : window f peTextOff (u.code - peTextOff) ++ u.body =
      window f peTextOff (u.code + u.body.length - peTextOff) := by
    conv_lhs => rw [hb]
    have hs := window_split f (a := peTextOff) (b := u.code) (c := u.code + u.body.length)
      (by omega) (by omega)
    rwa [Nat.add_sub_cancel_left] at hs
  refine ⟨⟨u.code, u.codeEnd, window f peTextOff (u.code + u.body.length - peTextOff)⟩, ?_, rfl, ?_⟩
  · simp only [PatchMacros.patch, Option.bind_eq_bind, ← Option.bind_assoc, hclose,
      Option.bind_some, hout]
  · refine ⟨by simp, by simp; omega, ?_⟩
    intro j hj hje
    simp only [window_length] at hj hje
    rw [hblock j ⟨by omega, hje⟩, Use.byte, List.getD_eq_getElem?_getD,
      List.getElem?_eq_none (by omega), Option.getD_none]

lemma run_tracks {f : ℕ → UInt8} (uses : List Use) (s : Asm) (h : Tracks f peTextOff s)
    (ho : Ordered s.patchEnd (peTextOff + peTextLen) uses)
    (hblock : ∀ u ∈ uses, ∀ j, u.covers j → f j = u.byte j)
    (hgap : ∀ j, s.patchEnd ≤ j → (∀ u ∈ uses, ¬ u.covers j) → f j = file j) :
    (uses.foldlM (patch file peTextOff) s).bind
        (fun t => (patchEnd file peTextOff peTextLen t).bind (fun t => some t.out)) =
      some (window f peTextOff peTextLen) := by
  induction uses generalizing s with
  | nil =>
    have hle : s.patchEnd ≤ peTextOff + peTextLen := ho
    have hclose := h.close hle (fun j hj _ => hgap j hj (by simp))
    rw [Nat.add_sub_cancel_left, Nat.cast_add] at hclose
    simp only [List.foldlM_nil, Option.pure_def, Option.bind_some, patchEnd, Option.bind_eq_bind,
      hclose]
  | cons u us ih =>
    obtain ⟨hlo, hbody, hrest⟩ := ho
    have hout : ∀ j, j < u.code → ∀ v ∈ u :: us, ¬ v.covers j := by
      intro j hj v hv hc
      rcases List.mem_cons.mp hv with rfl | hv
      · exact absurd hc.1 (by omega)
      · have := hrest.lo_le_code v hv
        exact absurd hc.1 (by omega)
    obtain ⟨t, ht, hte, htr⟩ := h.patch hlo hbody
      (fun j hj hlt => hgap j hj (hout j hlt)) (hblock u List.mem_cons_self)
    simp only [List.foldlM_cons, Option.bind_eq_bind, ht, Option.bind_some]
    refine ih t htr (hte ▸ hrest) (fun v hv => hblock v (List.mem_cons_of_mem _ hv)) ?_
    intro j hj hus
    apply hgap j (by omega)
    intro v hv
    rcases List.mem_cons.mp hv with rfl | hv
    · exact fun hc => absurd hc.2 (by omega)
    · exact hus v hv

lemma peText_eq {uses : List Use} (h : Ordered peTextOff (peTextOff + peTextLen) uses) :
    peText file peTextOff peTextLen uses =
      some (window (patchedByte file uses) peTextOff peTextLen) := by
  refine run_tracks uses ⟨peTextOff, peTextOff, []⟩ ⟨by simp, by simp, ?_⟩ h ?_ ?_
  · intro j hj hlt
    simp only [List.length_nil] at hj hlt
    omega
  · exact fun u hu j hj => patchedByte_block h hu hj
  · exact fun j _ hj => patchedByte_outside hj

/-- The patched section is the file outside the blocks, and body then padding inside them. -/
theorem peText_preserves_file (file : ℕ → UInt8) (peTextOff peTextLen : ℕ) (uses : List Use)
    (h : Ordered peTextOff (peTextOff + peTextLen) uses) :
    ∃ out, peText file peTextOff peTextLen uses = some out ∧ out.length = peTextLen ∧
      (∀ j < peTextLen, (∀ u ∈ uses, ¬ u.covers (peTextOff + j)) →
        out[j]? = some (file (peTextOff + j))) ∧
      ∀ u ∈ uses, (∀ k < u.body.length, out[u.code - peTextOff + k]? = u.body[k]?) ∧
        ∀ k, u.code + u.body.length ≤ k → k < u.codeEnd → out[k - peTextOff]? = some nop := by
  refine ⟨_, peText_eq h, by simp, ?_, ?_⟩
  · intro j hj ho
    rw [window_getElem? _ hj, patchedByte_outside ho]
  · intro u hu
    have hlo := h.lo_le_code u hu
    have hhi := h.codeEnd_le u hu
    have hbyte : ∀ k, u.code ≤ k → k < u.codeEnd →
        (window (patchedByte file uses) peTextOff peTextLen)[k - peTextOff]? = some (u.byte k) := by
      intro k hk hke
      rw [window_getElem? _ (by omega), show peTextOff + (k - peTextOff) = k by omega,
        patchedByte_block h hu ⟨hk, hke⟩]
    refine ⟨fun k hk => ?_, fun k hk hke => ?_⟩
    · rw [show u.code - peTextOff + k = u.code + k - peTextOff by omega,
        hbyte (u.code + k) (by omega) (by omega)]
      simp [Use.byte, List.getElem?_eq_getElem hk]
    · rw [hbyte k (by omega) hke, Use.byte, List.getD_eq_getElem?_getD,
        List.getElem?_eq_none (by omega), Option.getD_none]

theorem peText_preserves_two_blocks :
    ∃ out, peText (fun i => i.toUInt8) 4 8 [⟨5, 8, [0xc3]⟩, ⟨8, 10, [0x31, 0xc0]⟩] = some out ∧
      out.length = 8 ∧ out[1]? = some 0xc3 ∧ out[2]? = some nop := by
  obtain ⟨out, ho, hl, _, hb⟩ := peText_preserves_file (fun i => i.toUInt8) 4 8
    [⟨5, 8, [0xc3]⟩, ⟨8, 10, [0x31, 0xc0]⟩] (by decide)
  obtain ⟨hbody, hpad⟩ := hb ⟨5, 8, [0xc3]⟩ (by simp)
  exact ⟨out, ho, hl, hbody 0 (by decide), hpad 6 (by decide) (by decide)⟩

end Metroskrew.Patch.PatchMacros
