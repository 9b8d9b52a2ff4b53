import Mathlib.Data.Fintype.Basic
import Mathlib.Data.Set.Finite.Basic
import Mathlib.Tactic

/-! The `bitarr_*` functions on the rows of FUN_00505340, and the set of bits a row stands for. -/

namespace Metroskrew.Patch

def wordlen (n : ℕ) : ℕ := (n + 31) / 32

abbrev Row (n : ℕ) := Fin (wordlen n) → BitVec 32

abbrev Rows (n : ℕ) := Fin n → Row n

variable {n : ℕ}

/-- The loop all of them share: word after word, `dst` gets what `f` makes of it. -/
def wordLoop (f : Fin (wordlen n) → BitVec 32 → BitVec 32) (dst : Row n) : Row n :=
  (List.finRange (wordlen n)).foldl (fun dst i => Function.update dst i (f i (dst i))) dst

def bitarrCpy (dst src : Row n) : Row n := wordLoop (fun i _ => src i) dst

def bitarrCpycmp (dst src : Row n) : Row n × ℕ :=
  (List.finRange (wordlen n)).foldl
    (fun st i => (Function.update st.1 i (src i), if st.1 i ≠ src i then 1 else st.2)) (dst, 0)

def bitarrSet (dst : Row n) (val : BitVec 32) : Row n := wordLoop (fun _ _ => val) dst

def bitarrAnd (dst src : Row n) : Row n := wordLoop (fun i word => word &&& src i) dst

def wordOf (v : Fin n) : Fin (wordlen n) := ⟨(v : ℕ) >>> 5, by
  rw [Nat.shiftRight_eq_div_pow, wordlen]
  omega⟩

/-- `row[v >> 5] |= 1 << (v & 0x1f)` -/
def orBit (row : Row n) (v : Fin n) : Row n :=
  Function.update row (wordOf v) (row (wordOf v) ||| 1#32 <<< ((v : ℕ) &&& 0x1f))

lemma foldl_update (f : Fin (wordlen n) → BitVec 32 → BitVec 32) {is : List (Fin (wordlen n))}
    (his : is.Nodup) (dst : Row n) (i : Fin (wordlen n)) :
    is.foldl (fun dst i => Function.update dst i (f i (dst i))) dst i =
      if i ∈ is then f i (dst i) else dst i := by
  induction is generalizing dst with
  | nil => rfl
  | cons j is ih =>
    obtain ⟨hj, hnodup⟩ := List.nodup_cons.mp his
    rw [List.foldl_cons, ih hnodup]
    by_cases hij : i = j
    · subst hij
      rw [if_neg hj, if_pos List.mem_cons_self, Function.update_self]
    · simp [hij]

lemma wordLoop_apply (f : Fin (wordlen n) → BitVec 32 → BitVec 32) (dst : Row n) :
    wordLoop f dst = fun i => f i (dst i) := by
  funext i
  rw [wordLoop, foldl_update f (List.nodup_finRange _), if_pos (List.mem_finRange i)]

lemma bitarrCpy_eq (dst src : Row n) : bitarrCpy dst src = src := wordLoop_apply _ _

lemma bitarrSet_eq (dst : Row n) (val : BitVec 32) : bitarrSet dst val = fun _ => val :=
  wordLoop_apply _ _

lemma bitarrAnd_eq (dst src : Row n) : bitarrAnd dst src = fun i => dst i &&& src i :=
  wordLoop_apply _ _

lemma foldl_cpycmp {is : List (Fin (wordlen n))} (his : is.Nodup) (src dst : Row n) (res : ℕ) :
    is.foldl (fun (st : Row n × ℕ) i =>
        (Function.update st.1 i (src i), if st.1 i ≠ src i then 1 else st.2)) (dst, res) =
      (is.foldl (fun dst i => Function.update dst i (src i)) dst,
        if ∀ i ∈ is, dst i = src i then res else 1) := by
  induction is generalizing dst res with
  | nil => simp
  | cons j is ih =>
    obtain ⟨hj, hnodup⟩ := List.nodup_cons.mp his
    have hsame : (∀ i ∈ is, Function.update dst j (src j) i = src i) ↔ ∀ i ∈ is, dst i = src i := by
      apply forall₂_congr
      intro i hi
      rw [Function.update_of_ne (ne_of_mem_of_not_mem hi hj)]
    rw [List.foldl_cons, ih hnodup, List.foldl_cons]
    simp only [hsame, List.forall_mem_cons]
    congr 1
    by_cases hdst : dst j = src j <;> simp [hdst]

lemma bitarrCpycmp_eq (dst src : Row n) :
    bitarrCpycmp dst src = (src, if dst = src then 0 else 1) := by
  rw [bitarrCpycmp, foldl_cpycmp (List.nodup_finRange _)]
  congr 1
  · exact bitarrCpy_eq dst src
  · simp [funext_iff]

abbrev BitPos (n : ℕ) := Fin (wordlen n) × Fin 32

def bitPos (v : Fin n) : BitPos n := (wordOf v, ⟨v % 32, Nat.mod_lt _ (by decide)⟩)

def bits (row : Row n) : Set (BitPos n) := {b | (row b.1).getLsbD b.2 = true}

lemma bitPos_injective : Function.Injective (bitPos (n := n)) := by
  intro v w h
  have hword := congrArg (fun b => (b.1 : ℕ)) h
  have hbit := congrArg (fun b => (b.2 : ℕ)) h
  simp only [bitPos, wordOf, Nat.shiftRight_eq_div_pow] at hword hbit
  apply Fin.ext
  omega

lemma bits_injective : Function.Injective (bits (n := n)) := by
  intro row row' h
  funext x
  apply BitVec.eq_of_getLsbD_eq
  intro i hi
  have := Set.ext_iff.mp h (x, ⟨i, hi⟩)
  exact Bool.eq_iff_iff.mpr this

lemma bits_and (dst src : Row n) : bits (bitarrAnd dst src) = bits dst ∩ bits src := by
  ext b
  simp [bits, bitarrAnd_eq]

lemma bits_ones (dst : Row n) : bits (bitarrSet dst (-1)) = Set.univ := by
  have hones : (-1 : BitVec 32) = BitVec.allOnes 32 := by decide
  ext ⟨x, i⟩
  simp only [bits, Set.mem_ofPred_eq, bitarrSet_eq, hones, BitVec.getLsbD_allOnes, i.isLt,
    decide_true, Set.mem_univ]

lemma getLsbD_bit (k i : Fin 32) : (1#32 <<< (k : ℕ)).getLsbD i = decide (i = k) := by
  rw [BitVec.getLsbD_shiftLeft]
  simp only [BitVec.getLsbD_one, i.isLt, decide_true, Bool.true_and]
  by_cases hik : i = k
  · simp [hik]
  · have : (i : ℕ) ≠ k := fun h => hik (Fin.ext h)
    simp [hik]
    omega

lemma bits_orBit (row : Row n) (v : Fin n) : bits (orBit row v) = insert (bitPos v) (bits row) := by
  have hmask : (v : ℕ) &&& 0x1f = (bitPos v).2 := Nat.and_two_pow_sub_one_eq_mod v 5
  have hpos : ∀ i, (wordOf v, i) = bitPos v ↔ i = (bitPos v).2 := by
    intro i
    rw [Prod.ext_iff]
    exact and_iff_right rfl
  ext ⟨x, i⟩
  rw [Set.mem_insert_iff]
  by_cases hx : x = wordOf v
  · subst hx
    simp only [bits, orBit, Set.mem_ofPred_eq, Function.update_self, BitVec.getLsbD_or, hmask,
      getLsbD_bit, hpos, Bool.or_eq_true, decide_eq_true_eq]
    exact or_comm
  · simp [bits, orBit, hx, bitPos]

end Metroskrew.Patch
