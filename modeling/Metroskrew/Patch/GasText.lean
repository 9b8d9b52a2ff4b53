import Metroskrew.Patch.PatchMacros

/-! The patched text as gas puts it together: a count of zero stands for the rest of the file, and a count
that goes past the end of the file is refused. -/

namespace Metroskrew.Patch.GasText

open Metroskrew.Library.Window Metroskrew.Patch.PatchMacros

section Macros

variable (file : ℕ → UInt8) (size peTextOff peTextLen : ℕ)

/-- `.incbin` on a file of `size` bytes. -/
def gasIncbin (off : ℕ) (len : ℤ) (s : Asm) : Option Asm :=
  let count := if len = 0 then (size : ℤ) - off else len
  if 0 ≤ count ∧ off + count ≤ size then
    some { s with out := s.out ++ window file off count.toNat }
  else none

def gasPatch (s : Asm) (u : Use) : Option Asm := do
  let s ← fill ((s.patchEnd : ℤ) - peTextOff - s.out.length) s
  let s ← gasIncbin file size s.patchEnd ((u.code : ℤ) - s.patchEnd) s
  some { patch := u.code, patchEnd := u.codeEnd, out := s.out ++ u.body }

def gasPatchEnd (s : Asm) : Option Asm := do
  let s ← fill ((s.patchEnd : ℤ) - peTextOff - s.out.length) s
  gasIncbin file size s.patchEnd ((peTextOff : ℤ) + peTextLen - s.patchEnd) s

def gasPeText (uses : List Use) : Option (List UInt8) := do
  let s ← uses.foldlM (gasPatch file size peTextOff) ⟨peTextOff, peTextOff, []⟩
  let s ← gasPatchEnd file size peTextOff peTextLen s
  some s.out

end Macros

/-- The blocks are in order, with something of the file before each of them and after the last one, which
may only end with the text where the file ends too. -/
def Spaced (size lo hi : ℕ) : List Use → Prop
  | [] => lo ≤ hi ∧ hi ≤ size ∧ (lo = hi → hi = size)
  | u :: us => lo < u.code ∧ u.code + u.body.length ≤ u.codeEnd ∧ Spaced size u.codeEnd hi us

instance decidableSpaced (size lo hi : ℕ) (us : List Use) : Decidable (Spaced size lo hi us) :=
  match us with
  | [] => inferInstanceAs (Decidable (lo ≤ hi ∧ hi ≤ size ∧ (lo = hi → hi = size)))
  | u :: us =>
    haveI := decidableSpaced size u.codeEnd hi us
    inferInstanceAs (Decidable (_ ∧ _ ∧ _))

variable {file : ℕ → UInt8} {size peTextOff peTextLen lo hi : ℕ}

lemma Spaced.ordered {us : List Use} (h : Spaced size lo hi us) : Ordered lo hi us := by
  induction us generalizing lo with
  | nil => exact h.1
  | cons u us ih => exact ⟨h.1.le, h.2.1, ih h.2.2⟩

lemma Spaced.le_size {us : List Use} (h : Spaced size lo hi us) : hi ≤ size := by
  induction us generalizing lo with
  | nil => exact h.2.1
  | cons u us ih => exact ih h.2.2

lemma gasIncbin_pos {off : ℕ} {len : ℤ} (s : Asm) (hlen : 0 < len) (hle : off + len ≤ size) :
    gasIncbin file size off len s = incbin file off len s := by
  simp only [gasIncbin, incbin, if_neg hlen.ne', if_pos hlen.le]
  exact if_pos ⟨hlen.le, hle⟩

lemma fill_keeps {count : ℤ} {s t : Asm} (h : fill count s = some t) : t.patchEnd = s.patchEnd := by
  unfold fill at h
  split_ifs at h
  cases h
  rfl

lemma gasPatch_eq {s : Asm} {u : Use} (hlt : s.patchEnd < u.code) (hle : u.code ≤ size) :
    gasPatch file size peTextOff s u = PatchMacros.patch file peTextOff s u := by
  unfold gasPatch PatchMacros.patch
  cases hfill : fill ((s.patchEnd : ℤ) - peTextOff - s.out.length) s with
  | none => rfl
  | some t =>
    have ht := fill_keeps hfill
    simp only [Option.bind_eq_bind, Option.bind_some]
    rw [gasIncbin_pos t (by omega) (by omega)]

lemma gasPatchEnd_eq {s : Asm} (h : Spaced size s.patchEnd (peTextOff + peTextLen) []) :
    gasPatchEnd file size peTextOff peTextLen s = patchEnd file peTextOff peTextLen s := by
  obtain ⟨hle, hsize, hend⟩ := h
  unfold gasPatchEnd patchEnd
  cases hfill : fill ((s.patchEnd : ℤ) - peTextOff - s.out.length) s with
  | none => rfl
  | some t =>
    have ht := fill_keeps hfill
    simp only [Option.bind_eq_bind, Option.bind_some]
    rcases hle.eq_or_lt with heq | hlt
    · -- nothing is left of the file either
      have hzero : (peTextOff : ℤ) + peTextLen - t.patchEnd = 0 := by omega
      have hrest : (size : ℤ) - t.patchEnd = 0 := by
        have := hend heq
        omega
      simp only [gasIncbin, incbin, hzero, if_pos, hrest]
      exact if_pos ⟨le_rfl, by omega⟩
    · exact gasIncbin_pos t (by omega) (by omega)

lemma patch_keeps {s t : Asm} {u : Use} (h : PatchMacros.patch file peTextOff s u = some t) :
    t.patchEnd = u.codeEnd := by
  simp only [PatchMacros.patch, Option.bind_eq_bind, Option.bind_eq_some_iff, Option.some.injEq] at h
  obtain ⟨_, _, _, _, rfl⟩ := h
  rfl

lemma run_eq (uses : List Use) (s : Asm) (h : Spaced size s.patchEnd (peTextOff + peTextLen) uses) :
    ((uses.foldlM (gasPatch file size peTextOff) s).bind fun t =>
        (gasPatchEnd file size peTextOff peTextLen t).bind fun t => some t.out) =
      (uses.foldlM (PatchMacros.patch file peTextOff) s).bind fun t =>
        (patchEnd file peTextOff peTextLen t).bind fun t => some t.out := by
  induction uses generalizing s with
  | nil =>
    rw [List.foldlM_nil, List.foldlM_nil, Option.pure_def, Option.bind_some, Option.bind_some,
      gasPatchEnd_eq h]
  | cons u us ih =>
    have hbound := h.ordered.codeEnd_le u List.mem_cons_self
    have hsize := h.le_size
    rw [List.foldlM_cons, List.foldlM_cons, gasPatch_eq h.1 (by omega)]
    cases hpatch : PatchMacros.patch file peTextOff s u with
    | none => rfl
    | some t =>
      apply ih
      rw [patch_keeps hpatch]
      exact h.2.2

lemma gasPeText_eq {uses : List Use} (h : Spaced size peTextOff (peTextOff + peTextLen) uses) :
    gasPeText file size peTextOff peTextLen uses =
      some (window (patchedByte file uses) peTextOff peTextLen) := by
  rw [← peText_eq h.ordered]
  exact run_eq uses ⟨peTextOff, peTextOff, []⟩ h

/-! ### What goes wrong otherwise -/

/-- Both of the counts of a macro's first two lines have to be right. -/
lemma gasClose_some {s t : Asm} {next : ℕ}
    (h : (fill ((s.patchEnd : ℤ) - peTextOff - s.out.length) s).bind
      (fun t => gasIncbin file size t.patchEnd ((next : ℤ) - t.patchEnd) t) = some t) :
    peTextOff + s.out.length ≤ s.patchEnd ∧ s.patchEnd ≤ size ∧
      (s.patchEnd < next ∧ next ≤ size ∧ peTextOff + t.out.length = next ∨
        s.patchEnd = next ∧ peTextOff + t.out.length = size) := by
  unfold fill at h
  split_ifs at h with hfill
  · simp only [Option.bind_some, gasIncbin] at h
    split_ifs at h with hzero hcount hcount
    all_goals cases h
    all_goals
      simp only [List.length_append, List.length_replicate, window_length]
      omega
  · cases h

lemma run_spaced (uses : List Use) (hbodies : ∀ u ∈ uses, u.body ≠ []) (s : Asm) {bytes : List UInt8}
    (h : (uses.foldlM (gasPatch file size peTextOff) s).bind
      (fun t => (gasPatchEnd file size peTextOff peTextLen t).bind fun t => some t.out) = some bytes)
    (hlen : bytes.length = peTextLen) :
    peTextOff + s.out.length ≤ s.patchEnd ∧ s.patchEnd ≤ size ∧
      Spaced size s.patchEnd (peTextOff + peTextLen) uses := by
  induction uses generalizing s with
  | nil =>
    rw [List.foldlM_nil, Option.pure_def, Option.bind_some] at h
    obtain ⟨t, hclose, hout⟩ := Option.bind_eq_some_iff.mp h
    obtain rfl := Option.some.inj hout
    have hnext : ((peTextOff + peTextLen : ℕ) : ℤ) = (peTextOff : ℤ) + peTextLen := Nat.cast_add _ _
    rw [gasPatchEnd, Option.bind_eq_bind, ← hnext] at hclose
    obtain ⟨hreached, hsize, hcases⟩ := gasClose_some hclose
    exact ⟨hreached, hsize, by omega, by omega, by omega⟩
  | cons u us ih =>
    rw [List.foldlM_cons, Option.bind_eq_bind, Option.bind_assoc] at h
    obtain ⟨t, hpatch, h⟩ := Option.bind_eq_some_iff.mp h
    simp only [gasPatch, Option.bind_eq_bind, ← Option.bind_assoc] at hpatch
    obtain ⟨s', hclose, hpatch⟩ := Option.bind_eq_some_iff.mp hpatch
    cases hpatch
    obtain ⟨hreached, hsize, hcases⟩ := gasClose_some hclose
    obtain ⟨hbody, hend, hrest⟩ := ih (fun v hv => hbodies v (List.mem_cons_of_mem u hv)) _ h
    have hpos := List.length_pos_iff.mpr (hbodies u List.mem_cons_self)
    rw [List.length_append] at hbody
    dsimp only at hbody hend
    -- with the rest of the file in front of it the block would end behind the file
    rcases hcases with ⟨hlt, -, hlen'⟩ | ⟨-, hlen'⟩
    · exact ⟨hreached, hsize, hlt, by omega, hrest⟩
    · omega

/-- gas makes a text of the right length exactly when every block stands clear of the one before it. -/
theorem gasPeText_iff {uses : List Use} (hbodies : ∀ u ∈ uses, u.body ≠ []) :
    (∃ bytes, gasPeText file size peTextOff peTextLen uses = some bytes ∧ bytes.length = peTextLen) ↔
      Spaced size peTextOff (peTextOff + peTextLen) uses := by
  constructor
  · rintro ⟨bytes, h, hlen⟩
    exact (run_spaced uses hbodies ⟨peTextOff, peTextOff, []⟩ h hlen).2.2
  · intro h
    exact ⟨_, gasPeText_eq h, window_length _ _ _⟩

end Metroskrew.Patch.GasText
