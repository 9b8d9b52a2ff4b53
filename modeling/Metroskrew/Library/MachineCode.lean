import Metroskrew.Library.Memory

/-! A few instructions of a 32-bit processor, and their bytes in a memory. -/

namespace Metroskrew.Library.MachineCode

open Metroskrew.Library.Memory

inductive Instr where
  | loadEax (a : UInt32)
  | storeEax (a : UInt32)
  | clearEax
  | pushEax
  | ret
  | jmp (target : UInt32)
  deriving Repr, DecidableEq

/-- What follows a jump of five bytes. -/
def jumpBase (place : ℕ) : UInt32 := place.toUInt32 + 5

def encode (place : ℕ) : Instr → List UInt8
  | .loadEax a => 0xa1 :: numberBytes 4 a.toNat
  | .storeEax a => 0xa3 :: numberBytes 4 a.toNat
  | .clearEax => [0x31, 0xc0]
  | .pushEax => [0x50]
  | .ret => [0xc3]
  | .jmp target => 0xe9 :: numberBytes 4 (target - jumpBase place).toNat

def Instr.size : Instr → ℕ
  | .loadEax _ | .storeEax _ | .jmp _ => 5
  | .clearEax => 2
  | .pushEax | .ret => 1

def assemble : ℕ → List Instr → List UInt8
  | _, [] => []
  | place, i :: is => encode place i ++ assemble (place + i.size) is

section Decoding

variable (mem : ℕ → Option UInt8)

def readLong (a : ℕ) : Option UInt32 := (readNumber mem 4 a).map Nat.toUInt32

def decode (place : ℕ) : Option Instr :=
  match mem place with
  | some 0xa1 => (readLong mem (place + 1)).map .loadEax
  | some 0xa3 => (readLong mem (place + 1)).map .storeEax
  | some 0x31 => if mem (place + 1) = some 0xc0 then some .clearEax else none
  | some 0x50 => some .pushEax
  | some 0xc3 => some .ret
  | some 0xe9 => (readLong mem (place + 1)).map fun rel => .jmp (jumpBase place + rel)
  | _ => none

/-- The next `n` instructions in memory, in a line. -/
def disassemble : ℕ → ℕ → Option (List Instr)
  | 0, _ => some []
  | n + 1, place => do
    let i ← decode mem place
    let is ← disassemble n (place + i.size)
    some (i :: is)

end Decoding

lemma encode_length (place : ℕ) (i : Instr) : (encode place i).length = i.size := by
  cases i <;> rfl

variable {mem : ℕ → Option UInt8}

/-- The bytes are in memory from `a` on. -/
def Stored (mem : ℕ → Option UInt8) (a : ℕ) (bytes : List UInt8) : Prop :=
  ∀ k (hk : k < bytes.length), mem (a + k) = some bytes[k]

lemma Stored.head {a : ℕ} {b : UInt8} {bytes : List UInt8} (h : Stored mem a (b :: bytes)) :
    mem a = some b := h 0 (Nat.succ_pos _)

lemma Stored.tail {a : ℕ} {b : UInt8} {bytes : List UInt8} (h : Stored mem a (b :: bytes)) :
    Stored mem (a + 1) bytes := by
  intro k hk
  have := h (k + 1) (Nat.succ_lt_succ hk)
  rwa [List.getElem_cons_succ, ← Nat.add_assoc, Nat.add_right_comm] at this

lemma Stored.append {a : ℕ} {front back : List UInt8} :
    Stored mem a (front ++ back) ↔ Stored mem a front ∧ Stored mem (a + front.length) back := by
  constructor
  · intro h
    constructor
    · intro k hk
      rw [h k (by rw [List.length_append]; omega), List.getElem_append_left hk]
    · intro k hk
      rw [Nat.add_assoc, h (front.length + k) (by rw [List.length_append]; omega),
        List.getElem_append_right (by omega)]
      simp
  · rintro ⟨hfront, hback⟩ k hk
    rcases Nat.lt_or_ge k front.length with hlt | hge
    · rw [hfront k hlt, List.getElem_append_left hlt]
    · rw [List.length_append] at hk
      have := hback (k - front.length) (by omega)
      rw [Nat.add_assoc, Nat.add_sub_cancel' hge] at this
      rw [this, List.getElem_append_right hge]

lemma readLong_eq {a : ℕ} {v : UInt32} (h : Stored mem a (numberBytes 4 v.toNat)) :
    readLong mem a = some v := by
  have hread : readNumber mem 4 a = some v.toNat := by
    apply readNumber_eq
    · intro k hk
      rw [h k hk]
      simp [numberBytes]
    · exact v.toNat_lt
  rw [readLong, hread, Option.map_some, Nat.toUInt32, UInt32.ofNat_toNat]

/-- An instruction is read back from where it was put, a jump with the target it was made for. -/
theorem decode_encode {place : ℕ} {i : Instr} (h : Stored mem place (encode place i)) :
    decode mem place = some i := by
  cases i with
  | loadEax a => simp only [decode, h.head, readLong_eq h.tail, Option.map_some]
  | storeEax a => simp only [decode, h.head, readLong_eq h.tail, Option.map_some]
  | clearEax => simp [decode, h.head, h.tail.head]
  | pushEax => simp [decode, h.head]
  | ret => simp [decode, h.head]
  | jmp target =>
    simp only [decode, h.head, readLong_eq h.tail, Option.map_some, Option.some.injEq,
      Instr.jmp.injEq]
    rw [UInt32.add_comm, UInt32.sub_add_cancel]

theorem disassemble_assemble {is : List Instr} {place : ℕ} (h : Stored mem place (assemble place is)) :
    disassemble mem is.length place = some is := by
  induction is generalizing place with
  | nil => rfl
  | cons i is ih =>
    obtain ⟨hfirst, hrest⟩ := Stored.append.mp h
    rw [encode_length] at hrest
    rw [List.length_cons, disassemble, decode_encode hfirst]
    simp only [Option.bind_eq_bind, Option.bind_some, ih hrest]

end Metroskrew.Library.MachineCode
