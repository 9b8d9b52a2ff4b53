import Metroskrew.Dlls.GlobalMem
import Metroskrew.Library.ByteHeap
import Metroskrew.Library.Memory

/-! The heap calls and the thread-local storage of kernel32 in the memory that they share. `malloc` always
finds room, `size_t` has 32 bits, and the `struct alloc` of a block is the eight bytes before what the program
gets. -/

namespace Metroskrew.Dlls.GlobalHeap

open Metroskrew.Library Metroskrew.Library.Memory

def sizeofAlloc : ℕ := 8

def longOf (bytes : List UInt8) : ℕ := bytes.foldr (fun b v => b.toNat + 256 * v) 0

/-- Where `malloc` or `realloc` puts the block, and what new memory holds. -/
structure Answer where
  place : ℕ
  fresh : ℕ → UInt8

/-- The calls, and what the program itself does with the memory that it got. -/
inductive Call where
  | globalAlloc (uFlags : UInt32) (dwBytes : ℕ)
  | globalReAlloc (hMem dwBytes : ℕ) (uFlags : UInt32)
  | globalFree (hMem : ℕ)
  | globalFlags (hMem : ℕ)
  | tlsAlloc
  | tlsFree (dwTlsIndex : ℕ)
  | tlsGetValue (dwTlsIndex : ℕ)
  | tlsSetValue (dwTlsIndex : ℕ) (lpTlsValue : UInt32)
  | read (hMem off n : ℕ)
  | write (hMem off : ℕ) (src : List UInt8)

inductive Reply where
  | handle (a : ℕ)
  | number (v : ℕ)
  | bytes (bs : List UInt8)
  | done
  deriving Repr, DecidableEq

/-- What comes of a call, if it does not end the program. -/
inductive Result (σ : Type) where
  | died
  | next (s : σ) (reply : Reply)

abbrev Event := Call × Answer

def blockFor (answer : Answer) (dwBytes : ℕ) : Block := ⟨answer.place, (sizeofAlloc + dwBytes) % 2 ^ 32⟩

/-- `alloc->size` and `alloc->flags` -/
def storeHeader (alloc dwBytes : ℕ) (uFlags : UInt32) (h : ByteHeap) : Option ByteHeap := do
  let h ← h.store alloc (numberBytes 4 dwBytes)
  h.store (alloc + 4) (numberBytes 4 uFlags.toNat)

def memsetZero (uFlags : UInt32) (a n : ℕ) (h : ByteHeap) : Option ByteHeap :=
  if uFlags &&& GMEM_ZEROINIT ≠ 0 then h.store a (List.replicate n 0) else some h

/-- What a block has grown by. -/
def zeroGrown (uFlags : UInt32) (data sizeOld dwBytes : ℕ) (h : ByteHeap) : Option ByteHeap :=
  if sizeOld < dwBytes then memsetZero uFlags (data + sizeOld) (dwBytes - sizeOld) h else some h

def finish (uFlags : UInt32) (res : ℕ) (h : ByteHeap) : Result ByteHeap :=
  if unhandledFlags uFlags ≠ 0 then .died else .next h (.handle res)

def globalAllocCall (answer : Answer) (uFlags : UInt32) (dwBytes : ℕ) (h : ByteHeap) :
    Option (Result ByteHeap) := do
  let h ← h.malloc (blockFor answer dwBytes) answer.fresh
  let h ← storeHeader answer.place dwBytes uFlags h
  let h ← memsetZero uFlags (answer.place + sizeofAlloc) dwBytes h
  some (finish uFlags (answer.place + sizeofAlloc) h)

/-- The old size is read from the block after it has moved. -/
def globalReAllocCall (answer : Answer) (hMem dwBytes : ℕ) (uFlags : UInt32) (h : ByteHeap) :
    Option (Result ByteHeap) := do
  let h ← h.realloc (hMem - sizeofAlloc) (blockFor answer dwBytes) answer.fresh
  let size ← h.load answer.place 4
  let sizeOld := longOf size
  let h ← storeHeader answer.place dwBytes uFlags h
  let h ← zeroGrown uFlags (answer.place + sizeofAlloc) sizeOld dwBytes h
  some (finish uFlags (answer.place + sizeofAlloc) h)

def callStep (h : ByteHeap) : Event → Option (Result ByteHeap)
  | (.globalAlloc uFlags dwBytes, answer) => globalAllocCall answer uFlags dwBytes h
  | (.globalReAlloc hMem dwBytes uFlags, answer) => globalReAllocCall answer hMem dwBytes uFlags h
  | (.globalFree hMem, _) => (h.free (hMem - sizeofAlloc)).map (.next · .done)
  | (.globalFlags hMem, _) => (h.load (hMem - sizeofAlloc + 4) 4).map (.next h <| .number <| longOf ·)
  | (.tlsAlloc, answer) => do
    let h ← h.malloc ⟨answer.place, 4⟩ answer.fresh
    let h ← h.store answer.place (numberBytes 4 0)
    some (.next h (.handle answer.place))
  | (.tlsFree dwTlsIndex, _) => (h.free dwTlsIndex).map (.next · .done)
  | (.tlsGetValue dwTlsIndex, _) => (h.load dwTlsIndex 4).map (.next h <| .number <| longOf ·)
  | (.tlsSetValue dwTlsIndex lpTlsValue, _) =>
    (h.store dwTlsIndex (numberBytes 4 lpTlsValue.toNat)).map (.next · .done)
  | (.read hMem off n, _) => (h.load (hMem + off) n).map (.next h <| .bytes ·)
  | (.write hMem off src, _) => (h.store (hMem + off) src).map (.next · .done)

/-- The replies, and what is left if the program has not been ended. -/
def run {σ : Type} (step : σ → Event → Option (Result σ)) : σ → List Event → Option (List Reply × Option σ)
  | s, [] => some ([], some s)
  | s, e :: es =>
    match step s e with
    | none => none
    | some .died => some ([], none)
    | some (.next s reply) => (run step s es).map fun r => (reply :: r.1, r.2)

/-! ### What the program sees -/

/-- A block of the program, or a slot. -/
inductive Object where
  | global (x : Alloc)
  | slot (v : UInt32)

/-- What is at an address, which is eight below the handle of a block. -/
abbrev Store := ℕ → Option Object

def Store.global (s : Store) (hMem : ℕ) : Option Alloc :=
  if hMem < sizeofAlloc then none
  else
    match s (hMem - sizeofAlloc) with
    | some (.global x) => some x
    | _ => none

def Store.slot (s : Store) (dwTlsIndex : ℕ) : Option UInt32 :=
  match s dwTlsIndex with
  | some (.slot v) => some v
  | _ => none

def Store.put (s : Store) (answer : Answer) : Option Alloc → Result Store
  | none => .died
  | some x => .next (Function.update s answer.place (some (.global x))) (.handle (answer.place + sizeofAlloc))

/-- A call on something that is not there, or outside of it, has no result. -/
def storeStep (s : Store) : Event → Option (Result Store)
  | (.globalAlloc uFlags dwBytes, answer) =>
    some (s.put answer (globalAlloc (fun i => answer.fresh (sizeofAlloc + i)) uFlags dwBytes))
  | (.globalReAlloc hMem dwBytes uFlags, answer) =>
    (s.global hMem).map fun x =>
      Store.put (Function.update s (hMem - sizeofAlloc) none) answer
        (globalReAlloc answer.fresh x dwBytes uFlags)
  | (.globalFree hMem, _) =>
    (s.global hMem).map fun _ => .next (Function.update s (hMem - sizeofAlloc) none) .done
  | (.globalFlags hMem, _) =>
    (s.global hMem).map fun x => .next s (.number (globalFlags x).toNat)
  | (.tlsAlloc, answer) =>
    some (.next (Function.update s answer.place (some (.slot 0))) (.handle answer.place))
  | (.tlsFree dwTlsIndex, _) =>
    (s.slot dwTlsIndex).map fun _ => .next (Function.update s dwTlsIndex none) .done
  | (.tlsGetValue dwTlsIndex, _) => (s.slot dwTlsIndex).map fun v => .next s (.number v.toNat)
  | (.tlsSetValue dwTlsIndex lpTlsValue, _) =>
    (s.slot dwTlsIndex).map fun _ =>
      .next (Function.update s dwTlsIndex (some (.slot lpTlsValue))) .done
  | (.read hMem off n, _) => do
    let x ← s.global hMem
    if off + n ≤ x.size then some (.next s (.bytes ((x.data.drop off).take n))) else none
  | (.write hMem off src, _) => do
    let x ← s.global hMem
    let x ← x.store off src
    some (.next (Function.update s (hMem - sizeofAlloc) (some (.global x))) .done)

def Object.bytes : Object → List UInt8
  | .global x => numberBytes 4 x.size ++ numberBytes 4 x.flags.toNat ++ x.data
  | .slot v => numberBytes 4 v.toNat

/-- The memory is what the objects are. -/
structure Sees (h : ByteHeap) (s : Store) : Prop where
  contents : h.contents = fun a => (s a).map Object.bytes
  sizes : ∀ a x, s a = some (.global x) → sizeofAlloc + x.size < 2 ^ 32

/-- The allocator gives out what is free only. -/
def Room (s : Store) (b : Block) : Prop := ∀ a o, s a = some o → b.Apart ⟨a, o.bytes.length⟩

def Fits (s : Store) : Event → Prop
  | (.globalAlloc _ dwBytes, answer) =>
    sizeofAlloc + dwBytes < 2 ^ 32 ∧ Room s ⟨answer.place, sizeofAlloc + dwBytes⟩
  | (.globalReAlloc hMem dwBytes _, answer) =>
    sizeofAlloc + dwBytes < 2 ^ 32 ∧
      Room (Function.update s (hMem - sizeofAlloc) none) ⟨answer.place, sizeofAlloc + dwBytes⟩
  | (.tlsAlloc, answer) => Room s ⟨answer.place, 4⟩
  | _ => True

/-! ### The bytes of an object -/

lemma longOf_numberBytes {v : ℕ} (hv : v < 2 ^ 32) : longOf (numberBytes 4 v) = v := by
  have hrange : List.range 4 = [0, 1, 2, 3] := rfl
  simp [longOf, numberBytes, hrange, numberByte]
  omega

lemma global_bytes_length (x : Alloc) : (Object.global x).bytes.length = sizeofAlloc + x.size := by
  simp [Object.bytes, x.data_length, sizeofAlloc]
  omega

lemma global_bytes_flags (x : Alloc) :
    ((Object.global x).bytes.drop 4).take 4 = numberBytes 4 x.flags.toNat := by
  rw [Object.bytes, List.append_assoc, List.drop_left' (numberBytes_length _ _)]
  exact List.take_left' (numberBytes_length _ _)

lemma global_bytes_data (x : Alloc) : (Object.global x).bytes.drop sizeofAlloc = x.data :=
  List.drop_left' (by simp [sizeofAlloc])

variable {h : ByteHeap} {s : Store}

lemma Sees.at (hs : Sees h s) {a : ℕ} {o : Object} (ho : s a = some o) :
    h.contents a = some o.bytes := by
  rw [hs.contents]
  exact congrArg (Option.map Object.bytes) ho

lemma Sees.room (hs : Sees h s) {b : Block} (hsize : 0 < b.size) (hroom : Room s b) : h.Free b := by
  refine ByteHeap.free_iff.mpr ⟨hsize, fun a bytes hbytes => ?_⟩
  rw [hs.contents] at hbytes
  obtain ⟨o, ho, rfl⟩ := Option.map_eq_some_iff.mp hbytes
  exact hroom a o ho

lemma global_some {hMem : ℕ} {x : Alloc} (hx : s.global hMem = some x) :
    sizeofAlloc ≤ hMem ∧ s (hMem - sizeofAlloc) = some (.global x) := by
  unfold Store.global at hx
  split_ifs at hx with hlt
  refine ⟨Nat.le_of_not_lt hlt, ?_⟩
  split at hx
  · next y hy => rw [hy, Option.some.inj hx]
  · cases hx

lemma slot_some {i : ℕ} {v : UInt32} (hv : s.slot i = some v) : s i = some (.slot v) := by
  unfold Store.slot at hv
  split at hv
  · next w hw => rw [hw, Option.some.inj hv]
  · cases hv

/-- What the memory holds after an object is put, or taken out. -/
lemma update_contents (a : ℕ) (o : Option Object) :
    Function.update (fun a => (s a).map Object.bytes) a (o.map Object.bytes) =
      fun b => (Function.update s a o b).map Object.bytes := by
  funext b
  by_cases hb : b = a
  · rw [hb, Function.update_self, Function.update_self]
  · rw [Function.update_of_ne hb, Function.update_of_ne hb]

lemma Sees.put (hs : Sees h s) {h' : ByteHeap} {a : ℕ} {o : Option Object}
    (hcontents : h'.contents = Function.update h.contents a (o.map Object.bytes))
    (hsize : ∀ x, o = some (.global x) → sizeofAlloc + x.size < 2 ^ 32) :
    Sees h' (Function.update s a o) where
  contents := by rw [hcontents, hs.contents, update_contents]
  sizes := by
    intro b x hx
    by_cases hb : b = a
    · rw [hb, Function.update_self] at hx
      exact hsize x hx
    · rw [Function.update_of_ne hb] at hx
      exact hs.sizes b x hx

/-! ### The calls -/

lemma storeHeader_some {alloc : ℕ} {bytes : List UInt8} (hbytes : h.contents alloc = some bytes)
    (hlen : sizeofAlloc ≤ bytes.length) (dwBytes : ℕ) (uFlags : UInt32) :
    ∃ h', storeHeader alloc dwBytes uFlags h = some h' ∧ h'.contents =
      Function.update h.contents alloc
        (some (numberBytes 4 dwBytes ++ numberBytes 4 uFlags.toNat ++ bytes.drop sizeofAlloc)) := by
  have hsize : sizeofAlloc = 8 := rfl
  obtain ⟨h₁, hstore₁, hcontents₁⟩ := ByteHeap.store_some hbytes 0 (numberBytes 4 dwBytes)
    (by rw [numberBytes_length]; omega)
  rw [List.take_zero, List.nil_append, Nat.zero_add, numberBytes_length] at hcontents₁
  have hbytes₁ : h₁.contents alloc = some (numberBytes 4 dwBytes ++ bytes.drop 4) := by
    rw [hcontents₁, Function.update_self]
  obtain ⟨h₂, hstore₂, hcontents₂⟩ := ByteHeap.store_some hbytes₁ 4 (numberBytes 4 uFlags.toNat)
    (by rw [List.length_append, numberBytes_length, numberBytes_length, List.length_drop]; omega)
  refine ⟨h₂, ?_, ?_⟩
  · rw [Nat.add_zero] at hstore₁
    simp only [storeHeader, hstore₁, bind, Option.bind_some]
    exact hstore₂
  · have hrest : (numberBytes 4 dwBytes ++ bytes.drop 4).drop (4 + 4) = bytes.drop sizeofAlloc := by
      rw [← List.drop_drop, List.drop_left' (numberBytes_length _ _), List.drop_drop]
      rfl
    rw [hcontents₂, hcontents₁, Function.update_idem, List.take_left' (numberBytes_length _ _),
      numberBytes_length, hrest]

lemma memsetZero_some {a off n : ℕ} {bytes : List UInt8} (hbytes : h.contents a = some bytes)
    (hin : off + n = bytes.length) (uFlags : UInt32) :
    ∃ h', memsetZero uFlags (a + off) n h = some h' ∧
      h'.contents = Function.update h.contents a (some (zeroInit uFlags off bytes)) := by
  unfold memsetZero zeroInit
  split_ifs with hzero
  · have hlen := List.length_replicate (n := n) (a := (0 : UInt8))
    obtain ⟨h', hstore, hcontents⟩ := ByteHeap.store_some hbytes off (List.replicate n 0)
      (by rw [hlen]; omega)
    refine ⟨h', hstore, ?_⟩
    rw [hcontents, hlen, List.drop_of_length_le (by omega), List.append_nil,
      show bytes.length - off = n by omega]
  · exact ⟨h, rfl, by rw [← hbytes, Function.update_eq_self]⟩

lemma zeroInit_append (uFlags : UInt32) {k : ℕ} {front : List UInt8} (data : List UInt8) (size : ℕ)
    (hfront : front.length = k) :
    zeroInit uFlags (k + size) (front ++ data) = front ++ zeroInit uFlags size data := by
  unfold zeroInit
  split_ifs
  · rw [List.length_append, hfront, Nat.add_sub_add_left, ← hfront, List.take_length_add_append,
      List.append_assoc]
  · rfl

lemma fresh_data (fresh : ℕ → UInt8) (n : ℕ) :
    ((List.range (sizeofAlloc + n)).map fresh).drop sizeofAlloc =
      (List.range n).map fun i => fresh (sizeofAlloc + i) := by
  rw [List.range_add, List.map_append, List.drop_left' (by simp), List.map_map]
  rfl

/-- The two sides of a call come out the same. -/
inductive Agrees : Result ByteHeap → Result Store → Prop
  | died : Agrees .died .died
  | next {h : ByteHeap} {s : Store} {reply : Reply} : Sees h s → Agrees (.next h reply) (.next s reply)

lemma hdr_length (n : ℕ) (uFlags : UInt32) :
    (numberBytes 4 n ++ numberBytes 4 uFlags.toNat).length = sizeofAlloc := by
  simp [sizeofAlloc]

lemma globalAllocCall_agrees (hs : Sees h s) {answer : Answer} {uFlags : UInt32} {dwBytes : ℕ}
    (hfits : Fits s (.globalAlloc uFlags dwBytes, answer)) :
    ∃ r, globalAllocCall answer uFlags dwBytes h = some r ∧
      Agrees r (s.put answer (globalAlloc (fun i => answer.fresh (sizeofAlloc + i)) uFlags dwBytes)) := by
  obtain ⟨hsmall, hroom⟩ := hfits
  have hblock : blockFor answer dwBytes = ⟨answer.place, sizeofAlloc + dwBytes⟩ := by
    rw [blockFor, Nat.mod_eq_of_lt hsmall]
  have hsize : 0 < sizeofAlloc + dwBytes := Nat.add_pos_left (by decide) _
  obtain ⟨h₁, hmalloc, hcontents₁⟩ := ByteHeap.malloc_some (hs.room hsize hroom) answer.fresh
  have hnew : h₁.contents answer.place =
      some ((List.range (sizeofAlloc + dwBytes)).map answer.fresh) := by
    rw [hcontents₁, Function.update_self]
  obtain ⟨h₂, hheader, hcontents₂⟩ := storeHeader_some hnew (by simp) dwBytes uFlags
  rw [fresh_data] at hcontents₂
  have hheaded : h₂.contents answer.place = some (numberBytes 4 dwBytes ++ numberBytes 4 uFlags.toNat ++
      (List.range dwBytes).map fun i => answer.fresh (sizeofAlloc + i)) := by
    rw [hcontents₂, Function.update_self]
  have hlen : sizeofAlloc + dwBytes = (numberBytes 4 dwBytes ++ numberBytes 4 uFlags.toNat ++
      (List.range dwBytes).map fun i => answer.fresh (sizeofAlloc + i)).length := by
    rw [List.length_append, hdr_length, List.length_map, List.length_range]
  obtain ⟨h₃, hzero, hcontents₃⟩ := memsetZero_some hheaded hlen uFlags
  rw [← Nat.add_zero sizeofAlloc, zeroInit_append uFlags _ 0 (hdr_length dwBytes uFlags), Nat.add_zero,
    hcontents₂, hcontents₁, Function.update_idem, Function.update_idem] at hcontents₃
  refine ⟨finish uFlags (answer.place + sizeofAlloc) h₃, ?_, ?_⟩
  · simp only [globalAllocCall, hblock, hmalloc, hheader, hzero, bind, Option.bind_some]
  · unfold finish globalAlloc
    dsimp only
    split_ifs with hflags
    · exact Agrees.died
    · apply Agrees.next
      apply hs.put hcontents₃
      intro x hx
      cases hx
      exact hsmall

lemma zeroInit_of_le (uFlags : UInt32) {size : ℕ} {data : List UInt8} (h : data.length ≤ size) :
    zeroInit uFlags size data = data := by
  unfold zeroInit
  split_ifs
  · rw [List.take_of_length_le h, Nat.sub_eq_zero_of_le h, List.replicate_zero, List.append_nil]
  · rfl

lemma zeroGrown_some {a n : ℕ} {front data : List UInt8}
    (hbytes : h.contents a = some (front ++ data)) (hfront : front.length = sizeofAlloc)
    (hdata : data.length = n) (size : ℕ) (uFlags : UInt32) :
    ∃ h', zeroGrown uFlags (a + sizeofAlloc) size n h = some h' ∧
      h'.contents = Function.update h.contents a (some (front ++ zeroInit uFlags size data)) := by
  unfold zeroGrown
  split_ifs with hgrown
  · have hlen : sizeofAlloc + size + (n - size) = (front ++ data).length := by
      rw [List.length_append, hfront, hdata]
      omega
    obtain ⟨h', hzero, hcontents⟩ := memsetZero_some hbytes hlen uFlags
    rw [zeroInit_append uFlags data size hfront] at hcontents
    exact ⟨h', by rw [Nat.add_assoc, hzero], hcontents⟩
  · refine ⟨h, rfl, ?_⟩
    rw [zeroInit_of_le uFlags (by omega), ← hbytes, Function.update_eq_self]

lemma Sees.move (hs : Sees h s) {h' : ByteHeap} {a b : ℕ} {x : Alloc}
    (hcontents : h'.contents = Function.update (Function.update h.contents a none) b
      (some (Object.global x).bytes)) (hsize : sizeofAlloc + x.size < 2 ^ 32) :
    Sees h' (Function.update (Function.update s a none) b (some (.global x))) where
  contents := by
    have hgone := update_contents (s := s) a none
    rw [hcontents, hs.contents]
    exact (congrArg (fun f => Function.update f b (some (Object.global x).bytes)) hgone).trans
      (update_contents b (some (.global x)))
  sizes := by
    intro c y hy
    by_cases hb : c = b
    · rw [hb, Function.update_self] at hy
      cases hy
      exact hsize
    · rw [Function.update_of_ne hb] at hy
      by_cases ha : c = a
      · rw [ha, Function.update_self] at hy
        cases hy
      · rw [Function.update_of_ne ha] at hy
        exact hs.sizes c y hy

/-- The block as `realloc` leaves it: the header of the old one, and as much of its data as fits. -/
lemma moved_bytes (x : Alloc) (fresh : ℕ → UInt8) (dwBytes : ℕ) :
    ((Object.global x).bytes.take (sizeofAlloc + dwBytes) ++
        (List.range (sizeofAlloc + dwBytes - (Object.global x).bytes.length)).map fresh) =
      numberBytes 4 x.size ++ numberBytes 4 x.flags.toNat ++
        (x.data.take dwBytes ++ (List.range (dwBytes - x.size)).map fresh) := by
  have htake : (Object.global x).bytes.take (sizeofAlloc + dwBytes) =
      numberBytes 4 x.size ++ numberBytes 4 x.flags.toNat ++ x.data.take dwBytes := by
    rw [Object.bytes, ← hdr_length x.size x.flags, List.take_length_add_append]
  rw [global_bytes_length, Nat.add_sub_add_left, htake, List.append_assoc]

lemma globalReAllocCall_agrees (hs : Sees h s) {hMem dwBytes : ℕ} {uFlags : UInt32} {answer : Answer}
    {x : Alloc} (hx : s.global hMem = some x)
    (hfits : Fits s (.globalReAlloc hMem dwBytes uFlags, answer)) :
    ∃ r, globalReAllocCall answer hMem dwBytes uFlags h = some r ∧
      Agrees r (Store.put (Function.update s (hMem - sizeofAlloc) none) answer
        (globalReAlloc answer.fresh x dwBytes uFlags)) := by
  obtain ⟨hsmall, hroom⟩ := hfits
  obtain ⟨-, ho⟩ := global_some hx
  have hblock : blockFor answer dwBytes = ⟨answer.place, sizeofAlloc + dwBytes⟩ := by
    rw [blockFor, Nat.mod_eq_of_lt hsmall]
  have hsize : 0 < sizeofAlloc + dwBytes := Nat.add_pos_left (by decide) _
  have hothers : ∀ c cs, c ≠ hMem - sizeofAlloc → h.contents c = some cs →
      Block.Apart ⟨answer.place, sizeofAlloc + dwBytes⟩ ⟨c, cs.length⟩ := by
    intro c cs hc hcs
    rw [hs.contents] at hcs
    obtain ⟨o, hoc, rfl⟩ := Option.map_eq_some_iff.mp hcs
    exact hroom c o (by rw [Function.update_of_ne hc, hoc])
  obtain ⟨h₁, hrealloc, hcontents₁⟩ := ByteHeap.realloc_some (hs.at ho) hsize hothers answer.fresh
  dsimp only at hcontents₁
  rw [moved_bytes] at hcontents₁
  set moved := x.data.take dwBytes ++ (List.range (dwBytes - x.size)).map answer.fresh with hmoved
  have hlen : moved.length = dwBytes := by
    simp [hmoved, x.data_length]
    omega
  have hbytes₁ : h₁.contents answer.place =
      some (numberBytes 4 x.size ++ numberBytes 4 x.flags.toNat ++ moved) := by
    rw [hcontents₁, Function.update_self]
  have hfit : sizeofAlloc ≤ (numberBytes 4 x.size ++ numberBytes 4 x.flags.toNat ++ moved).length := by
    rw [List.length_append, hdr_length]
    exact Nat.le_add_right _ _
  -- the size in the header that has moved is that of the old block
  have hload : h₁.load answer.place 4 = some (numberBytes 4 x.size) := by
    have hfront := ByteHeap.load_some hbytes₁ 0 4 (by rw [Nat.zero_add]; exact le_trans (by decide) hfit)
    rw [Nat.add_zero, List.drop_zero, List.append_assoc, List.take_left' (numberBytes_length _ _)] at hfront
    exact hfront
  have hold : longOf (numberBytes 4 x.size) = x.size := by
    have := hs.sizes _ _ ho
    exact longOf_numberBytes (by omega)
  obtain ⟨h₂, hheader, hcontents₂⟩ := storeHeader_some hbytes₁ hfit dwBytes uFlags
  rw [List.drop_left' (hdr_length x.size x.flags)] at hcontents₂
  have hbytes₂ : h₂.contents answer.place =
      some (numberBytes 4 dwBytes ++ numberBytes 4 uFlags.toNat ++ moved) := by
    rw [hcontents₂, Function.update_self]
  obtain ⟨h₃, hzero, hcontents₃⟩ := zeroGrown_some hbytes₂ (hdr_length dwBytes uFlags) hlen x.size
    uFlags
  rw [hcontents₂, hcontents₁, Function.update_idem, Function.update_idem] at hcontents₃
  refine ⟨finish uFlags (answer.place + sizeofAlloc) h₃, ?_, ?_⟩
  · simp only [globalReAllocCall, hblock, hrealloc, hload, hold, hheader, hzero, bind, Option.bind_some]
  · unfold finish globalReAlloc
    dsimp only
    split_ifs with hflags
    · exact Agrees.died
    · exact Agrees.next (hs.move hcontents₃ hsmall)

lemma tlsAlloc_agrees (hs : Sees h s) {answer : Answer} (hfits : Fits s (.tlsAlloc, answer)) :
    ∃ r, callStep h (.tlsAlloc, answer) = some r ∧
      Agrees r (.next (Function.update s answer.place (some (.slot 0))) (.handle answer.place)) := by
  obtain ⟨h₁, hmalloc, hcontents₁⟩ := ByteHeap.malloc_some (hs.room (Nat.succ_pos 3) hfits) answer.fresh
  have hnew : h₁.contents answer.place = some ((List.range 4).map answer.fresh) := by
    rw [hcontents₁, Function.update_self]
  obtain ⟨h₂, hstore, hcontents₂⟩ := ByteHeap.store_some hnew 0 (numberBytes 4 0) (by simp)
  rw [hcontents₁, Function.update_idem] at hcontents₂
  refine ⟨.next h₂ (.handle answer.place), ?_, Agrees.next (hs.put hcontents₂ ?_)⟩
  · rw [Nat.add_zero] at hstore
    simp only [callStep, hmalloc, hstore, bind, Option.bind_some]
  · intro x hx
    cases hx

lemma slot_load (hs : Sees h s) {i : ℕ} {v : UInt32} (hv : s i = some (.slot v)) :
    h.load i 4 = some (numberBytes 4 v.toNat) := by
  have hload := ByteHeap.load_some (hs.at hv) 0 4 (by simp [Object.bytes])
  rw [Nat.add_zero, List.drop_zero, List.take_of_length_le (by simp [Object.bytes])] at hload
  exact hload

lemma slot_store (hs : Sees h s) {i : ℕ} {v : UInt32} (hv : s i = some (.slot v)) (w : UInt32) :
    ∃ h', h.store i (numberBytes 4 w.toNat) = some h' ∧
      Sees h' (Function.update s i (some (.slot w))) := by
  obtain ⟨h', hstore, hcontents⟩ := ByteHeap.store_some (hs.at hv) 0 (numberBytes 4 w.toNat)
    (by simp [Object.bytes])
  rw [Nat.add_zero] at hstore
  refine ⟨h', hstore, hs.put (o := some (.slot w)) ?_ fun x hx => by cases hx⟩
  rw [hcontents, List.take_zero, List.nil_append,
    List.drop_of_length_le (by simp [Object.bytes]), List.append_nil]
  rfl

lemma flags_load (hs : Sees h s) {hMem : ℕ} {x : Alloc} (hx : s.global hMem = some x) :
    h.load (hMem - sizeofAlloc + 4) 4 = some (numberBytes 4 x.flags.toNat) := by
  obtain ⟨-, ho⟩ := global_some hx
  have hsize : sizeofAlloc = 8 := rfl
  rw [ByteHeap.load_some (hs.at ho) 4 4 (by rw [global_bytes_length]; omega), global_bytes_flags]

lemma data_load (hs : Sees h s) {hMem off n : ℕ} {x : Alloc} (hx : s.global hMem = some x)
    (hin : off + n ≤ x.size) : h.load (hMem + off) n = some ((x.data.drop off).take n) := by
  obtain ⟨hle, ho⟩ := global_some hx
  have hload := ByteHeap.load_some (hs.at ho) (sizeofAlloc + off) n
    (by rw [global_bytes_length]; omega)
  rw [← Nat.add_assoc, Nat.sub_add_cancel hle, ← List.drop_drop, global_bytes_data] at hload
  exact hload

lemma data_store (hs : Sees h s) {hMem off : ℕ} {src : List UInt8} {x y : Alloc}
    (hx : s.global hMem = some x) (hstore : x.store off src = some y) :
    ∃ h', h.store (hMem + off) src = some h' ∧
      Sees h' (Function.update s (hMem - sizeofAlloc) (some (.global y))) := by
  obtain ⟨hle, ho⟩ := global_some hx
  unfold Alloc.store at hstore
  split_ifs at hstore with hin
  cases hstore
  obtain ⟨h', hstore, hcontents⟩ := ByteHeap.store_some (hs.at ho) (sizeofAlloc + off) src
    (by rw [global_bytes_length]; omega)
  rw [← Nat.add_assoc, Nat.sub_add_cancel hle] at hstore
  refine ⟨h', hstore, hs.put (o := some (.global _)) ?_ ?_⟩
  · have hfront : (numberBytes 4 x.size ++ numberBytes 4 x.flags.toNat).length = sizeofAlloc :=
      hdr_length x.size x.flags
    rw [hcontents, Object.bytes, ← hfront, List.take_length_add_append, Nat.add_assoc,
      List.drop_length_add_append]
    simp [Object.bytes]
  · intro z hz
    cases hz
    exact hs.sizes _ x ho

lemma callStep_agrees (hs : Sees h s) {e : Event} {r : Result Store} (hfits : Fits s e)
    (hstep : storeStep s e = some r) : ∃ r', callStep h e = some r' ∧ Agrees r' r := by
  obtain ⟨call, answer⟩ := e
  cases call with
  | globalAlloc uFlags dwBytes =>
    cases hstep
    exact globalAllocCall_agrees hs hfits
  | globalReAlloc hMem dwBytes uFlags =>
    obtain ⟨x, hx, rfl⟩ := Option.map_eq_some_iff.mp hstep
    exact globalReAllocCall_agrees hs hx hfits
  | globalFree hMem =>
    obtain ⟨x, hx, rfl⟩ := Option.map_eq_some_iff.mp hstep
    obtain ⟨-, ho⟩ := global_some hx
    obtain ⟨h', hfree, hcontents⟩ := ByteHeap.free_some (hs.at ho)
    refine ⟨.next h' .done, by rw [callStep, hfree]; rfl, Agrees.next ?_⟩
    exact hs.put (o := none) hcontents fun x hx => by cases hx
  | globalFlags hMem =>
    obtain ⟨x, hx, rfl⟩ := Option.map_eq_some_iff.mp hstep
    refine ⟨.next h (.number x.flags.toNat), ?_, Agrees.next hs⟩
    rw [callStep, flags_load hs hx, Option.map_some, longOf_numberBytes x.flags.toNat_lt]
  | tlsAlloc =>
    cases hstep
    exact tlsAlloc_agrees hs hfits
  | tlsFree i =>
    obtain ⟨v, hv, rfl⟩ := Option.map_eq_some_iff.mp hstep
    obtain ⟨h', hfree, hcontents⟩ := ByteHeap.free_some (hs.at (slot_some hv))
    refine ⟨.next h' .done, by rw [callStep, hfree]; rfl, Agrees.next ?_⟩
    exact hs.put (o := none) hcontents fun x hx => by cases hx
  | tlsGetValue i =>
    obtain ⟨v, hv, rfl⟩ := Option.map_eq_some_iff.mp hstep
    refine ⟨.next h (.number v.toNat), ?_, Agrees.next hs⟩
    rw [callStep, slot_load hs (slot_some hv), Option.map_some, longOf_numberBytes v.toNat_lt]
  | tlsSetValue i w =>
    obtain ⟨v, hv, rfl⟩ := Option.map_eq_some_iff.mp hstep
    obtain ⟨h', hstore, hs'⟩ := slot_store hs (slot_some hv) w
    exact ⟨.next h' .done, by rw [callStep, hstore]; rfl, Agrees.next hs'⟩
  | read hMem off n =>
    obtain ⟨x, hx, hstep⟩ := Option.bind_eq_some_iff.mp hstep
    split_ifs at hstep with hin
    cases hstep
    refine ⟨.next h (.bytes ((x.data.drop off).take n)), ?_, Agrees.next hs⟩
    rw [callStep, data_load hs hx hin, Option.map_some]
  | write hMem off src =>
    obtain ⟨x, hx, hstep⟩ := Option.bind_eq_some_iff.mp hstep
    obtain ⟨y, hy, hstep⟩ := Option.bind_eq_some_iff.mp hstep
    cases hstep
    obtain ⟨h', hstore, hs'⟩ := data_store hs hx hy
    exact ⟨.next h' .done, by rw [callStep, hstore]; rfl, Agrees.next hs'⟩

/-- A run in which the program calls with what it has, and the allocator gives out what is free. -/
inductive Runs : Store → List Event → List Reply → Option Store → Prop
  | nil (s : Store) : Runs s [] [] (some s)
  | died {s : Store} {e : Event} {es : List Event} :
      Fits s e → storeStep s e = some .died → Runs s (e :: es) [] none
  | next {s s' : Store} {e : Event} {es : List Event} {reply : Reply} {replies : List Reply}
      {last : Option Store} :
      Fits s e → storeStep s e = some (.next s' reply) → Runs s' es replies last →
      Runs s (e :: es) (reply :: replies) last

lemma run_sees {es : List Event} {replies : List Reply} {last : Option Store}
    (hruns : Runs s es replies last) (hs : Sees h s) :
    ∃ last', run callStep h es = some (replies, last') ∧ Option.Rel Sees last' last := by
  induction hruns generalizing h with
  | nil s => exact ⟨some h, rfl, Option.Rel.some hs⟩
  | died hfits hstep =>
    obtain ⟨r, hcall, hagrees⟩ := callStep_agrees hs hfits hstep
    cases hagrees
    exact ⟨none, by rw [run, hcall], Option.Rel.none⟩
  | next hfits hstep _ ih =>
    obtain ⟨r, hcall, hagrees⟩ := callStep_agrees hs hfits hstep
    cases hagrees with
    | next hs' =>
      obtain ⟨last', hrest, hrel⟩ := ih hs'
      exact ⟨last', by rw [run, hcall]; simp only [hrest, Option.map_some], hrel⟩

end Metroskrew.Dlls.GlobalHeap
