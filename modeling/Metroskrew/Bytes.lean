import Mathlib.Data.List.TakeWhile
import Mathlib.Tactic

/-! Byte buffers, little-endian words and C strings as the tools read them. -/

namespace Metroskrew

/-- The bytes of a C string before its terminator. -/
abbrev CString := List UInt8

def ascii (s : String) : CString := s.toList.map fun c => c.toNat.toUInt8

def cstr (mem : List UInt8) : CString := mem.takeWhile (· ≠ 0)

lemma cstr_append {s rest : List UInt8} (h : 0 ∉ s) : cstr (s ++ 0 :: rest) = s := by
  rw [cstr, List.takeWhile_append_of_pos, List.takeWhile_cons_of_neg, List.append_nil]
  · simp
  · intro b hb
    simpa using ne_of_mem_of_not_mem hb h

def strchr (s : CString) (c : UInt8) : Option CString :=
  match s.dropWhile (· ≠ c) with
  | [] => none
  | b :: rest => some (b :: rest)

lemma strchr_some {s t : CString} {c : UInt8} (h : strchr s c = some t) :
    t <:+ s ∧ t.head? = some c := by
  have hsuffix := List.dropWhile_suffix (l := s) (p := (· ≠ c))
  have hhead := List.head?_dropWhile_not (fun b : UInt8 => b ≠ c) s
  rw [strchr] at h
  cases hd : s.dropWhile (· ≠ c) with
  | nil =>
    rw [hd] at h
    cases h
  | cons b rest =>
    rw [hd] at h hsuffix hhead
    cases h
    exact ⟨hsuffix, by simpa using hhead⟩

lemma strchr_none {s : CString} {c : UInt8} (h : strchr s c = none) : c ∉ s := by
  rw [strchr] at h
  cases hd : s.dropWhile (· ≠ c) with
  | nil =>
    intro hc
    simpa using (List.dropWhile_eq_nil_iff.mp hd) c hc
  | cons b rest =>
    rw [hd] at h
    cases h

lemma strchr_split {s t : CString} {c : UInt8} (h : strchr s c = some t) :
    ∃ before after, s = before ++ c :: after ∧ t = c :: after ∧ c ∉ before := by
  have hsplit := List.takeWhile_append_dropWhile (p := fun b : UInt8 => b ≠ c) (l := s)
  obtain ⟨_, hhead⟩ := strchr_some h
  have hdrop : s.dropWhile (· ≠ c) = t := by
    rw [strchr] at h
    split at h
    · cases h
    · rename_i hd
      cases h
      exact hd
  obtain ⟨after, rfl⟩ : ∃ after, t = c :: after := by
    cases t with
    | nil => cases hhead
    | cons b after => exact ⟨after, by rw [List.head?_cons, Option.some.injEq] at hhead; rw [hhead]⟩
  refine ⟨s.takeWhile (· ≠ c), after, by rw [← hdrop, hsplit], rfl, fun hc => ?_⟩
  simpa using List.mem_takeWhile_imp hc

lemma strchr_tail_lt {s t : CString} {c : UInt8} (h : strchr s c = some t) :
    t.tail.length < s.length := by
  obtain ⟨before, after, rfl, rfl, _⟩ := strchr_split h
  simp
  omega

lemma strchr_append {s t : CString} {c : UInt8} (hs : c ∉ s) : strchr (s ++ t) c = strchr t c := by
  rw [strchr, strchr, List.dropWhile_append_of_pos]
  intro b hb
  simpa using fun he : b = c => hs (he ▸ hb)

lemma strchr_cons (s : CString) (c : UInt8) : strchr (c :: s) c = some (c :: s) := by
  simp [strchr]

lemma strchr_nil (c : UInt8) : strchr [] c = none := rfl

lemma strchr_of_not_mem {s : CString} {c : UInt8} (h : c ∉ s) : strchr s c = none := by
  rw [← List.append_nil s, strchr_append h, strchr_nil]

def byteAt (mem : List UInt8) (i : ℕ) : UInt8 := mem.getD i 0

def readU16 (mem : List UInt8) (off : ℕ) : ℕ :=
  ((mem.getD off 0).toUInt16 <<< 0 ||| (mem.getD (off + 1) 0).toUInt16 <<< 8).toNat

def readU32 (mem : List UInt8) (off : ℕ) : ℕ :=
  ((mem.getD off 0).toUInt32 <<< 0 ||| (mem.getD (off + 1) 0).toUInt32 <<< 8 |||
    (mem.getD (off + 2) 0).toUInt32 <<< 16 ||| (mem.getD (off + 3) 0).toUInt32 <<< 24).toNat

lemma readU32_lt (mem : List UInt8) (off : ℕ) : readU32 mem off < 2 ^ 32 := by
  exact UInt32.toNat_lt _

lemma getD_window (mem : List UInt8) {pos size k : ℕ} (h : k < size) :
    ((mem.drop pos).take size).getD k 0 = mem.getD (pos + k) 0 := by
  simp [List.getD_eq_getElem?_getD, h]

lemma readU32_window (mem : List UInt8) {pos size k : ℕ} (h : k + 4 ≤ size) :
    readU32 ((mem.drop pos).take size) k = readU32 mem (pos + k) := by
  simp only [readU32, getD_window mem (show k < size by omega),
    getD_window mem (show k + 1 < size by omega), getD_window mem (show k + 2 < size by omega),
    getD_window mem (show k + 3 < size by omega), Nat.add_assoc]

end Metroskrew
