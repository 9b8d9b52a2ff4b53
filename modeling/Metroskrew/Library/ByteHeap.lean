import Metroskrew.Library.Window

/-! Blocks of bytes in one memory. Where a block is put and what it holds at first are up to the
allocator; an access that is not inside one block has no result. -/

namespace Metroskrew.Library

open Metroskrew.Library.Window

structure Block where
  start : ℕ
  size : ℕ
  deriving Repr, DecidableEq

namespace Block

def Apart (b c : Block) : Prop := b.start + b.size ≤ c.start ∨ c.start + c.size ≤ b.start

instance (b c : Block) : Decidable (b.Apart c) := inferInstanceAs (Decidable (_ ∨ _))

def Covers (b : Block) (a n : ℕ) : Prop := b.start ≤ a ∧ a + n ≤ b.start + b.size

instance (b : Block) (a n : ℕ) : Decidable (b.Covers a n) := inferInstanceAs (Decidable (_ ∧ _))

instance : Std.Symm Block.Apart := ⟨fun _ _ => Or.symm⟩

end Block

structure ByteHeap where
  byte : ℕ → UInt8
  blocks : List Block
  positive : ∀ b ∈ blocks, 0 < b.size
  apart : blocks.Pairwise Block.Apart

namespace ByteHeap

def empty : ByteHeap := ⟨fun _ => 0, [], fun _ h => absurd h List.not_mem_nil, List.Pairwise.nil⟩

variable (h : ByteHeap)

/-- There is room for the block. -/
def Free (b : Block) : Prop := 0 < b.size ∧ ∀ c ∈ h.blocks, b.Apart c

instance (b : Block) : Decidable (h.Free b) := inferInstanceAs (Decidable (_ ∧ _))

/-- `malloc`, which has chosen the block. -/
def malloc (b : Block) (fresh : ℕ → UInt8) : Option ByteHeap :=
  if hfree : h.Free b then
    some
      { byte := fun a => if b.Covers a 1 then fresh (a - b.start) else h.byte a
        blocks := b :: h.blocks
        positive := List.forall_mem_cons.mpr ⟨hfree.1, h.positive⟩
        apart := List.pairwise_cons.mpr ⟨hfree.2, h.apart⟩ }
  else none

def blockAt (a : ℕ) : Option Block := h.blocks.find? fun b => b.start = a

def free (a : ℕ) : Option ByteHeap :=
  match h.blockAt a with
  | none => none
  | some _ =>
    some
      { byte := h.byte
        blocks := h.blocks.filter fun b => b.start ≠ a
        positive := fun b hb => h.positive b (List.mem_of_mem_filter hb)
        apart := h.apart.filter _ }

/-- What is in the block that starts at `a`. -/
def contents (a : ℕ) : Option (List UInt8) :=
  (h.blockAt a).map fun b => window h.byte a b.size

/-- `realloc`, which has chosen the new block; it may be over the old one. -/
def realloc (a : ℕ) (b : Block) (fresh : ℕ → UInt8) : Option ByteHeap := do
  let old ← h.contents a
  let h ← h.free a
  h.malloc b fun i => old.getD i (fresh (i - old.length))

def load (a n : ℕ) : Option (List UInt8) :=
  if h.blocks.any fun b => b.Covers a n then some (window h.byte a n) else none

def store (a : ℕ) (bytes : List UInt8) : Option ByteHeap :=
  if h.blocks.any fun b => b.Covers a bytes.length then
    some { h with byte := fun i =>
      if a ≤ i ∧ i < a + bytes.length then bytes.getD (i - a) 0 else h.byte i }
  else none

variable {h}

/-- Blocks that are both there and touch are the same. -/
lemma eq_of_touch {b c : Block} (hb : b ∈ h.blocks) (hc : c ∈ h.blocks) (htouch : ¬ b.Apart c) :
    b = c := by
  by_contra hne
  exact htouch (h.apart.forall hb hc hne)

lemma not_apart {b c : Block} {a : ℕ} (hb : b.Covers a 1) (hc : c.Covers a 1) : ¬ b.Apart c := by
  obtain ⟨hb₁, hb₂⟩ := hb
  obtain ⟨hc₁, hc₂⟩ := hc
  unfold Block.Apart
  omega

lemma blockAt_some {b : Block} {a : ℕ} : h.blockAt a = some b ↔ b ∈ h.blocks ∧ b.start = a := by
  constructor
  · intro hb
    exact ⟨List.mem_of_find?_eq_some hb, by simpa using List.find?_some hb⟩
  · rintro ⟨hb, rfl⟩
    obtain ⟨c, hc⟩ : ∃ c, h.blockAt b.start = some c :=
      Option.isSome_iff_exists.mp (List.find?_isSome.mpr ⟨b, hb, by simp⟩)
    have hstart : c.start = b.start := by simpa using List.find?_some hc
    have hmem := List.mem_of_find?_eq_some hc
    have hpos := h.positive b hb
    have hpos' := h.positive c hmem
    rw [hc, eq_of_touch hmem hb (not_apart (a := b.start) ⟨hstart.le, by omega⟩ ⟨le_rfl, by omega⟩)]

lemma contents_some {a : ℕ} {bytes : List UInt8} :
    h.contents a = some bytes ↔
      ∃ b ∈ h.blocks, b.start = a ∧ bytes = window h.byte a b.size := by
  rw [contents, Option.map_eq_some_iff]
  constructor
  · rintro ⟨b, hb, rfl⟩
    obtain ⟨hmem, hstart⟩ := blockAt_some.mp hb
    exact ⟨b, hmem, hstart, rfl⟩
  · rintro ⟨b, hmem, hstart, rfl⟩
    exact ⟨b, blockAt_some.mpr ⟨hmem, hstart⟩, rfl⟩

lemma contents_none {a : ℕ} : h.contents a = none ↔ ∀ b ∈ h.blocks, b.start ≠ a := by
  rw [contents, Option.map_eq_none_iff, blockAt, List.find?_eq_none]
  simp

/-- A memory with the same blocks elsewhere has the same contents there. -/
lemma contents_congr {h' : ByteHeap} {a : ℕ}
    (hblocks : ∀ b, b.start = a → (b ∈ h'.blocks ↔ b ∈ h.blocks))
    (hbyte : ∀ b ∈ h.blocks, b.start = a → ∀ i, b.Covers i 1 → h'.byte i = h.byte i) :
    h'.contents a = h.contents a := by
  cases hold : h.contents a with
  | none =>
    rw [contents_none] at hold ⊢
    exact fun b hb hstart => hold b ((hblocks b hstart).mp hb) hstart
  | some bytes =>
    obtain ⟨b, hb, hstart, rfl⟩ := contents_some.mp hold
    refine contents_some.mpr ⟨b, (hblocks b hstart).mpr hb, hstart, ?_⟩
    apply window_congr
    intro i hlo hhi
    exact (hbyte b hb hstart i ⟨hstart ▸ hlo, by omega⟩).symm

/-- A block has room iff it is apart from everything that is there. -/
lemma free_iff {b : Block} :
    h.Free b ↔ 0 < b.size ∧ ∀ a bytes, h.contents a = some bytes → b.Apart ⟨a, bytes.length⟩ := by
  apply and_congr_right
  intro _
  constructor
  · intro hfree a bytes hbytes
    obtain ⟨c, hc, rfl, rfl⟩ := contents_some.mp hbytes
    rw [window_length]
    exact hfree c hc
  · intro hfree c hc
    have := hfree c.start _ (contents_some.mpr ⟨c, hc, rfl, rfl⟩)
    rwa [window_length] at this

lemma window_fresh (fresh : ℕ → UInt8) (n : ℕ) : window fresh 0 n = (List.range n).map fresh := by
  rw [window, List.range_eq_range']

lemma window_extend (old : List UInt8) (fresh : ℕ → UInt8) (n : ℕ) :
    window (fun i => old.getD i (fresh (i - old.length))) 0 n =
      old.take n ++ (List.range (n - old.length)).map fresh := by
  apply List.ext_getElem
  · simp
    omega
  · intro i hi _
    rw [window_length] at hi
    rcases Nat.lt_or_ge i old.length with hold | hold
    · rw [List.getElem_append_left (by simp; omega)]
      simp [window, hold]
    · rw [List.getElem_append_right (by simp; omega)]
      simp [window, List.getElem?_eq_none hold, Nat.min_eq_right (hold.trans hi.le)]

theorem malloc_some {b : Block} (hfree : h.Free b) (fresh : ℕ → UInt8) :
    ∃ h', h.malloc b fresh = some h' ∧
      h'.contents = Function.update h.contents b.start (some ((List.range b.size).map fresh)) := by
  refine ⟨_, dif_pos hfree, ?_⟩
  rw [← window_fresh]
  funext a
  by_cases ha : a = b.start
  · subst ha
    rw [Function.update_self]
    refine contents_some.mpr ⟨b, List.mem_cons_self, rfl, ?_⟩
    have hshift := window_shift (fun i => fresh (i - b.start)) b.start 0 b.size
    simp only [Nat.add_sub_cancel_left, Nat.add_zero] at hshift
    rw [hshift]
    apply window_congr
    intro i hlo hhi
    exact (if_pos ⟨hlo, by omega⟩).symm
  · rw [Function.update_of_ne ha]
    apply contents_congr
    · intro c hstart
      rw [List.mem_cons, or_iff_right]
      rintro rfl
      exact ha hstart.symm
    · intro c hc _ i hcovers
      exact if_neg fun hb => not_apart hb hcovers (hfree.2 c hc)

theorem free_some {a : ℕ} {bytes : List UInt8} (hbytes : h.contents a = some bytes) :
    ∃ h', h.free a = some h' ∧ h'.contents = Function.update h.contents a none := by
  obtain ⟨b, hb, -⟩ := Option.map_eq_some_iff.mp hbytes
  unfold free
  rw [hb]
  refine ⟨_, rfl, ?_⟩
  funext c
  by_cases hc : c = a
  · subst hc
    rw [Function.update_self, contents_none]
    intro d hd
    simpa using (List.mem_filter.mp hd).2
  · rw [Function.update_of_ne hc]
    apply contents_congr
    · intro d hstart
      rw [List.mem_filter, and_iff_left]
      simpa [hstart] using hc
    · exact fun _ _ _ _ _ => rfl

theorem load_some {a : ℕ} {bytes : List UInt8} (hbytes : h.contents a = some bytes) (off n : ℕ)
    (hin : off + n ≤ bytes.length) : h.load (a + off) n = some ((bytes.drop off).take n) := by
  obtain ⟨b, hb, rfl, rfl⟩ := contents_some.mp hbytes
  rw [window_length] at hin
  have hcovers : h.blocks.any (fun c => decide (c.Covers (b.start + off) n)) = true := by
    rw [List.any_eq_true]
    exact ⟨b, hb, decide_eq_true ⟨by omega, by omega⟩⟩
  rw [load, if_pos hcovers]
  apply congrArg
  apply List.ext_getElem
  · simp
    omega
  · intro i hi _
    rw [window_length] at hi
    simp [window, Nat.add_assoc]

theorem store_some {a : ℕ} {bytes : List UInt8} (hbytes : h.contents a = some bytes) (off : ℕ)
    (src : List UInt8) (hin : off + src.length ≤ bytes.length) :
    ∃ h', h.store (a + off) src = some h' ∧ h'.contents =
      Function.update h.contents a
        (some (bytes.take off ++ src ++ bytes.drop (off + src.length))) := by
  obtain ⟨b, hb, rfl, rfl⟩ := contents_some.mp hbytes
  rw [window_length] at hin
  have hcovers : h.blocks.any (fun c => decide (c.Covers (b.start + off) src.length)) = true := by
    rw [List.any_eq_true]
    exact ⟨b, hb, decide_eq_true ⟨by omega, by omega⟩⟩
  refine ⟨_, if_pos hcovers, ?_⟩
  funext c
  by_cases hc : c = b.start
  · subst hc
    rw [Function.update_self]
    refine contents_some.mpr ⟨b, hb, rfl, ?_⟩
    apply List.ext_getElem?
    intro k
    rcases Nat.lt_or_ge k b.size with hk | hk
    · rw [window_getElem? _ hk, List.append_assoc]
      dsimp only
      rcases Nat.lt_or_ge k off with hoff | hoff
      · rw [if_neg (by omega), List.getElem?_append_left (by simp; omega), List.getElem?_take_of_lt hoff,
          window_getElem? _ hk]
      · rw [List.getElem?_append_right (by simp; omega), List.length_take, window_length,
          min_eq_left (by omega)]
        rcases Nat.lt_or_ge (k - off) src.length with hsrc | hsrc
        · rw [if_pos (by omega), List.getElem?_append_left hsrc, Nat.add_sub_add_left]
          simp [List.getElem?_eq_getElem hsrc]
        · rw [if_neg (by omega), List.getElem?_append_right hsrc, List.getElem?_drop,
            show off + src.length + (k - off - src.length) = k by omega, window_getElem? _ hk]
    · rw [List.getElem?_eq_none (by simp; omega), List.getElem?_eq_none (by simpa using hk)]
  · rw [Function.update_of_ne hc]
    apply contents_congr
    · exact fun _ _ => Iff.rfl
    · intro d hd hstart i hdi
      apply if_neg
      rintro ⟨hlo, hhi⟩
      have hbi : b.Covers i 1 := ⟨by omega, by omega⟩
      rw [eq_of_touch hb hd (not_apart hbi hdi)] at hc
      exact hc hstart.symm

/-- The new block may be where the old one was, but not over another one. -/
theorem realloc_some {a : ℕ} {b : Block} {bytes : List UInt8} (hbytes : h.contents a = some bytes)
    (hsize : 0 < b.size)
    (hroom : ∀ c cs, c ≠ a → h.contents c = some cs → b.Apart ⟨c, cs.length⟩)
    (fresh : ℕ → UInt8) :
    ∃ h', h.realloc a b fresh = some h' ∧ h'.contents =
      Function.update (Function.update h.contents a none) b.start
        (some (bytes.take b.size ++ (List.range (b.size - bytes.length)).map fresh)) := by
  obtain ⟨h₁, hfree, hcontents⟩ := free_some hbytes
  have hroom₁ : h₁.Free b := by
    refine free_iff.mpr ⟨hsize, fun c cs hcs => ?_⟩
    rw [hcontents] at hcs
    by_cases hc : c = a
    · rw [hc, Function.update_self] at hcs
      cases hcs
    · rw [Function.update_of_ne hc] at hcs
      exact hroom c cs hc hcs
  obtain ⟨h₂, hmalloc, hcontents₂⟩ := malloc_some hroom₁ fun i =>
    bytes.getD i (fresh (i - bytes.length))
  refine ⟨h₂, ?_, by rw [hcontents₂, hcontents, ← window_extend, window_fresh]⟩
  simp only [realloc, hbytes, hfree, bind, Option.bind_some, hmalloc]

end ByteHeap

end Metroskrew.Library
