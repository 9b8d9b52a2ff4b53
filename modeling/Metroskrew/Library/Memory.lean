import Mathlib.Data.List.Basic
import Mathlib.Tactic

/-! Little-endian numbers and arrays of words in a memory with unmapped addresses. -/

namespace Metroskrew.Library.Memory

variable (mem : ℕ → Option UInt8)

/-- The number of `n` bytes at `a`. -/
def readNumber : ℕ → ℕ → Option ℕ
  | 0, _ => some 0
  | n + 1, a => do
    let low ← mem a
    let high ← readNumber n (a + 1)
    some (low.toNat + 256 * high)

/-- At most `n` words of two bytes from `a` on, as long as there are any. -/
def readWords : ℕ → ℕ → List UInt16
  | 0, _ => []
  | n + 1, a =>
    match readNumber mem 2 a with
    | none => []
    | some w => w.toUInt16 :: readWords n (a + 2)

def numberByte (v k : ℕ) : UInt8 := (v / 256 ^ k).toUInt8

/-- The first `n` bytes of a number. -/
def numberBytes (n v : ℕ) : List UInt8 := (List.range n).map (numberByte v)

@[simp] lemma numberBytes_length (n v : ℕ) : (numberBytes n v).length = n := by simp [numberBytes]

variable {mem}

theorem readNumber_eq {n a v : ℕ} (h : ∀ k < n, mem (a + k) = some (numberByte v k))
    (hv : v < 256 ^ n) : readNumber mem n a = some v := by
  induction n generalizing a v with
  | zero =>
    obtain rfl : v = 0 := by simpa using hv
    rfl
  | succ n ih =>
    have hlow : mem a = some v.toUInt8 := by simpa [numberByte] using h 0 (Nat.succ_pos n)
    have hhigh : readNumber mem n (a + 1) = some (v / 256) := by
      apply ih
      · intro k hk
        rw [show a + 1 + k = a + (k + 1) by omega, h (k + 1) (by omega), numberByte, numberByte,
          Nat.pow_succ', Nat.div_div_eq_div_mul]
      · rw [Nat.pow_succ'] at hv
        exact Nat.div_lt_of_lt_mul hv
    rw [readNumber, hlow, hhigh]
    simp only [Option.bind_eq_bind, Option.bind_some, Option.some.injEq, Nat.toUInt8,
      UInt8.toNat_ofNat']
    exact Nat.mod_add_div v 256

def wordBytes (ws : List UInt16) : List UInt8 :=
  ws.flatMap fun w => [numberByte w.toNat 0, numberByte w.toNat 1]

/-- An array of words that is there is what is read first. -/
theorem prefix_readWords {ws : List UInt16} {n a : ℕ}
    (h : ∀ k (hk : k < (wordBytes ws).length), mem (a + k) = some (wordBytes ws)[k])
    (hn : ws.length ≤ n) : ws <+: readWords mem n a := by
  induction ws generalizing n a with
  | nil => exact List.nil_prefix
  | cons w ws ih =>
    cases n with
    | zero => simp at hn
    | succ n =>
      have hbytes : wordBytes (w :: ws) =
          numberByte w.toNat 0 :: numberByte w.toNat 1 :: wordBytes ws := rfl
      have hword : readNumber mem 2 a = some w.toNat := by
        apply readNumber_eq
        · intro k hk
          rw [h k (by rw [hbytes]; simp; omega)]
          interval_cases k <;> simp [hbytes]
        · exact w.toNat_lt
      have hrest : ws <+: readWords mem n (a + 2) := by
        apply ih
        · intro k hk
          have := h (k + 2) (by rw [hbytes]; simpa using hk)
          rw [show a + 2 + k = a + (k + 2) by omega, this]
          simp [hbytes]
        · simpa using hn
      simp only [readWords, hword]
      rw [Nat.toUInt16, UInt16.ofNat_toNat]
      exact List.cons_prefix_cons.mpr ⟨rfl, hrest⟩

end Metroskrew.Library.Memory
