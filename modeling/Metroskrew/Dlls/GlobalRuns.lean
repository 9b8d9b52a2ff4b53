import Metroskrew.Dlls.GlobalHeap

/-! Runs of the heap calls: the memory is that of a store of objects, and each block has a life of its
own. -/

namespace Metroskrew.Dlls.GlobalHeap

open Metroskrew.Library Metroskrew.Library.Memory

/-- The block that a call moves, frees or changes. -/
def Call.block : Call → Option ℕ
  | .globalReAlloc hMem _ _ | .globalFree hMem | .write hMem _ _ => some hMem
  | _ => none

/-- A block on its own: the calls on it, in whatever else the program does. -/
def track : Option (ℕ × Alloc) → Event → Option (ℕ × Alloc)
  | none, _ => none
  | some (hMem, x), (.globalReAlloc hMem' dwBytes uFlags, answer) =>
    if hMem' = hMem then
      (globalReAlloc answer.fresh x dwBytes uFlags).map (answer.place + sizeofAlloc, ·)
    else some (hMem, x)
  | some (hMem, x), (.globalFree hMem', _) => if hMem' = hMem then none else some (hMem, x)
  | some (hMem, x), (.write hMem' off src, _) =>
    if hMem' = hMem then (x.store off src).map (hMem, ·) else some (hMem, x)
  | some (hMem, x), _ => some (hMem, x)

variable {h : ByteHeap} {s s' : Store}

lemma track_none (es : List Event) : es.foldl track none = none := by
  induction es with
  | nil => rfl
  | cons e es ih => exact ih

lemma global_update_of_ne {a hMem : ℕ} (ha : a ≠ hMem - sizeofAlloc) (o : Option Object) :
    Store.global (Function.update s a o) hMem = s.global hMem := by
  unfold Store.global
  rw [Function.update_of_ne ha.symm]

lemma global_update_self {hMem : ℕ} (hle : sizeofAlloc ≤ hMem) (x : Alloc) :
    Store.global (Function.update s (hMem - sizeofAlloc) (some (.global x))) hMem = some x := by
  unfold Store.global
  rw [if_neg (Nat.not_lt.mpr hle), Function.update_self]

lemma global_place (place : ℕ) (x : Alloc) :
    Store.global (Function.update s place (some (.global x))) (place + sizeofAlloc) = some x := by
  have := global_update_self (s := s) (Nat.le_add_left sizeofAlloc place) x
  rwa [Nat.add_sub_cancel] at this

lemma Room.ne {a place size : ℕ} {o : Object} (hroom : Room s ⟨place, size⟩) (ho : s a = some o)
    (hsize : 0 < size) : place ≠ a := by
  rintro rfl
  have hpos : 0 < o.bytes.length := by
    cases o with
    | global x => rw [global_bytes_length]; exact Nat.add_pos_left (by decide) _
    | slot v => simp [Object.bytes]
  rcases hroom place o ho with h | h <;> dsimp only at h <;> omega

/-- Room next to an object that is put somewhere else. -/
lemma Room.update {b : Block} (hroom : Room s b) {a : ℕ} {o : Option Object}
    (ho : ∀ o', o = some o' → b.Apart ⟨a, o'.bytes.length⟩) : Room (Function.update s a o) b := by
  intro c o' ho'
  by_cases hc : c = a
  · rw [hc, Function.update_self] at ho'
    rw [hc]
    exact ho o' ho'
  · rw [Function.update_of_ne hc] at ho'
    exact hroom c o' ho'

variable {hMem hMem' : ℕ} {x y : Alloc}

lemma global_ne {z : Alloc} (hx : s.global hMem = some x) (hz : s.global hMem' = some z)
    (hne : hMem' ≠ hMem) : hMem' - sizeofAlloc ≠ hMem - sizeofAlloc := by
  obtain ⟨hle, -⟩ := global_some hx
  obtain ⟨hle', -⟩ := global_some hz
  omega

lemma slot_ne {i : ℕ} {v : UInt32} (hx : s.global hMem = some x) (hv : s.slot i = some v) :
    i ≠ hMem - sizeofAlloc := by
  rintro rfl
  have ho := (global_some hx).2
  rw [slot_some hv] at ho
  cases ho

lemma track_elsewhere {e : Event} (hother : e.1.block ≠ some hMem) :
    track (some (hMem, x)) e = some (hMem, x) := by
  obtain ⟨call, answer⟩ := e
  cases call with
  | globalReAlloc hOther | globalFree hOther | write hOther =>
    exact if_neg fun h => hother (congrArg some h)
  | _ => rfl

/-- A new block is put where the others are not. -/
lemma put_elsewhere {answer : Answer} {made : Option Alloc} {reply : Reply} {size : ℕ}
    (hput : s.put answer made = .next s' reply) (hroom : Room s ⟨answer.place, sizeofAlloc + size⟩)
    (hx : s.global hMem = some x) : s'.global hMem = some x := by
  cases made with
  | none => cases hput
  | some z =>
    cases hput
    rw [global_update_of_ne (hroom.ne (global_some hx).2 (Nat.add_pos_left (by decide) size)), hx]

/-- A call on something else leaves a block as it is. -/
lemma storeStep_elsewhere {e : Event} {reply : Reply} (hfits : Fits s e)
    (hstep : storeStep s e = some (.next s' reply)) (hx : s.global hMem = some x)
    (hother : e.1.block ≠ some hMem) : s'.global hMem = some x := by
  have hne : ∀ {h}, e.1.block = some h → h ≠ hMem := by
    rintro h hblock rfl
    exact hother hblock
  obtain ⟨call, answer⟩ := e
  cases call with
  | globalAlloc uFlags dwBytes => exact put_elsewhere (Option.some.inj hstep) hfits.2 hx
  | globalReAlloc hOther dwBytes uFlags =>
    obtain ⟨z, hz, hput⟩ := Option.map_eq_some_iff.mp hstep
    apply put_elsewhere hput hfits.2
    rw [global_update_of_ne (global_ne hx hz (hne rfl)), hx]
  | globalFree hOther =>
    obtain ⟨z, hz, hnext⟩ := Option.map_eq_some_iff.mp hstep
    cases hnext
    rw [global_update_of_ne (global_ne hx hz (hne rfl)), hx]
  | globalFlags hOther =>
    obtain ⟨z, -, hnext⟩ := Option.map_eq_some_iff.mp hstep
    cases hnext
    exact hx
  | tlsAlloc =>
    cases hstep
    rw [global_update_of_ne (hfits.ne (global_some hx).2 (by decide)), hx]
  | tlsFree i =>
    obtain ⟨v, hv, hnext⟩ := Option.map_eq_some_iff.mp hstep
    cases hnext
    rw [global_update_of_ne (slot_ne hx hv), hx]
  | tlsGetValue i =>
    obtain ⟨v, -, hnext⟩ := Option.map_eq_some_iff.mp hstep
    cases hnext
    exact hx
  | tlsSetValue i w =>
    obtain ⟨v, hv, hnext⟩ := Option.map_eq_some_iff.mp hstep
    cases hnext
    rw [global_update_of_ne (slot_ne hx hv), hx]
  | read hOther off n =>
    obtain ⟨z, -, hnext⟩ := Option.bind_eq_some_iff.mp hstep
    split_ifs at hnext
    cases hnext
    exact hx
  | write hOther off src =>
    obtain ⟨z, hz, hstep⟩ := Option.bind_eq_some_iff.mp hstep
    obtain ⟨w, -, hnext⟩ := Option.bind_eq_some_iff.mp hstep
    cases hnext
    rw [global_update_of_ne (global_ne hx hz (hne rfl)), hx]

lemma track_step {e : Event} {reply : Reply} (hfits : Fits s e)
    (hstep : storeStep s e = some (.next s' reply)) (hx : s.global hMem = some x)
    (htrack : track (some (hMem, x)) e = some (hMem', y)) : s'.global hMem' = some y := by
  by_cases hown : e.1.block = some hMem
  · obtain ⟨call, answer⟩ := e
    cases call with
    | globalReAlloc hSame dwBytes uFlags =>
      obtain rfl : hSame = hMem := Option.some.inj hown
      simp only [track, if_true, Option.map_eq_some_iff, Prod.mk.injEq] at htrack
      obtain ⟨grown, hgrown, rfl, rfl⟩ := htrack
      simp only [storeStep, hx, Option.map_some, hgrown, Store.put, Option.some.injEq,
        Result.next.injEq] at hstep
      rw [← hstep.1, global_place]
    | globalFree hSame =>
      obtain rfl : hSame = hMem := Option.some.inj hown
      simp [track] at htrack
    | write hSame off src =>
      obtain rfl : hSame = hMem := Option.some.inj hown
      simp only [track, if_true, Option.map_eq_some_iff, Prod.mk.injEq] at htrack
      obtain ⟨filled, hfilled, rfl, rfl⟩ := htrack
      simp only [storeStep, hx, hfilled, bind, Option.bind_some, Option.some.injEq,
        Result.next.injEq] at hstep
      rw [← hstep.1, global_update_self (global_some hx).1]
    | _ => cases hown
  · rw [track_elsewhere hown] at htrack
    cases htrack
    exact storeStep_elsewhere hfits hstep hx hown

lemma track_run {es : List Event} {replies : List Reply} {last : Option Store}
    (hruns : Runs s es replies last) (hx : s.global hMem = some x)
    (htrack : es.foldl track (some (hMem, x)) = some (hMem', y)) :
    ∀ s', last = some s' → s'.global hMem' = some y := by
  induction hruns generalizing hMem x with
  | nil s =>
    cases htrack
    rintro s' ⟨⟩
    exact hx
  | died =>
    intro s' hlast
    cases hlast
  | @next s s₁ e es reply replies last hfits hstep hrest ih =>
    rw [List.foldl_cons] at htrack
    cases hone : track (some (hMem, x)) e with
    | none =>
      rw [hone, track_none] at htrack
      cases htrack
    | some next =>
      rw [hone] at htrack
      exact ih (track_step hfits hstep hx hone) htrack

lemma empty_sees : Sees ByteHeap.empty fun _ => none := by
  refine ⟨?_, fun a x hx => by cases hx⟩
  funext a
  rfl

/-- Three zeroed bytes. -/
def allocated : Store := Function.update (fun _ => none) 0x1000 (some (.global ⟨3, 0x40, [0, 0, 0], rfl⟩))

def allocation : Event := (.globalAlloc 0x40 3, ⟨0x1000, fun _ => 0xcc⟩)

/-- The block grows somewhere else, with a slot in between. -/
def growing : List Event :=
  [(.tlsAlloc, ⟨0x2000, fun _ => 0xcc⟩), (.write 0x1008 1 [7, 8], ⟨0, fun _ => 0⟩),
    (.globalReAlloc 0x1008 5 0x42, ⟨0x3000, fun _ => 0xcc⟩), (.tlsSetValue 0x2000 9, ⟨0, fun _ => 0⟩),
    (.read 0x3008 0 5, ⟨0, fun _ => 0⟩), (.globalFlags 0x3008, ⟨0, fun _ => 0⟩)]

def growingReplies : List Reply :=
  [.handle 0x2000, .done, .handle 0x3008, .done, .bytes [0, 7, 8, 0, 0], .number 0x42]

lemma allocation_runs {es : List Event} {replies : List Reply} {last : Option Store}
    (hruns : Runs allocated es replies last) :
    Runs (fun _ => none) (allocation :: es) (.handle 0x1008 :: replies) last := by
  refine .next ⟨by decide, ?_⟩ rfl hruns
  intro a o ho
  cases ho

lemma growing_runs : ∃ s', Runs allocated growing growingReplies (some s') := by
  refine ⟨_, .next ?_ rfl <| .next trivial rfl <| .next ⟨by decide, ?_⟩ rfl <| .next trivial rfl <|
    .next trivial rfl <| .next trivial rfl <| .nil _⟩
  · refine Room.update (fun a o ho => by cases ho) ?_
    rintro o ⟨⟩
    decide
  · refine Room.update (Room.update (Room.update (Room.update (fun a o ho => by cases ho) ?_) ?_) ?_) ?_
    all_goals
      rintro o ⟨⟩
    all_goals decide

/-- Whatever the program calls with what it has got, nothing outside of a block is read or stored, the
replies are those of a store of objects, and the memory is what they are. -/
theorem heap_calls (es : List Event) (replies : List Reply) (last : Option Store)
    (hruns : Runs (fun _ => none) es replies last) :
    ∃ last', run callStep ByteHeap.empty es = some (replies, last') ∧ Option.Rel Sees last' last :=
  run_sees hruns empty_sees

theorem heap_calls_growing : ∃ h s,
    run callStep ByteHeap.empty (allocation :: growing) = some (.handle 0x1008 :: growingReplies, some h) ∧
      Sees h s := by
  obtain ⟨s', hruns⟩ := growing_runs
  obtain ⟨last', hrun, hrel⟩ := heap_calls (allocation :: growing) (.handle 0x1008 :: growingReplies)
    (some s') (allocation_runs hruns)
  cases hrel with
  | @some h _ hs => exact ⟨h, s', hrun, hs⟩

/-- In memory a block has the bytes and the flags that its own calls left in it. -/
theorem block_alone (h : ByteHeap) (s s' : Store) (es : List Event) (replies : List Reply)
    (hs : Sees h s) (hruns : Runs s es replies (some s')) (hMem hMem' : ℕ) (x y : Alloc)
    (hx : s.global hMem = some x) (htrack : es.foldl track (some (hMem, x)) = some (hMem', y)) :
    ∃ h', run callStep h es = some (replies, some h') ∧ h'.load hMem' y.size = some y.data ∧
      h'.load (hMem' - 4) 4 = some (numberBytes 4 y.flags.toNat) := by
  obtain ⟨last', hrun, hrel⟩ := run_sees hruns hs
  cases hrel with
  | @some h' _ hs' =>
    have hy := track_run hruns hx htrack s' rfl
    obtain ⟨hle, -⟩ := global_some hy
    refine ⟨h', hrun, ?_, ?_⟩
    · have hload := data_load hs' hy (show 0 + y.size ≤ y.size by omega)
      rwa [Nat.add_zero, List.drop_zero, List.take_of_length_le y.data_length.le] at hload
    · have hload := flags_load hs' hy
      rwa [show hMem' - sizeofAlloc + 4 = hMem' - 4 by simp only [sizeofAlloc] at hle ⊢; omega] at hload

theorem block_alone_growing : ∃ h h', run callStep h growing = some (growingReplies, some h') ∧
    h'.load 0x3008 5 = some [0, 7, 8, 0, 0] ∧ h'.load 0x3004 4 = some [0x42, 0, 0, 0] := by
  obtain ⟨s', hruns⟩ := growing_runs
  obtain ⟨last, -, hrel⟩ := run_sees (allocation_runs (.nil allocated)) empty_sees
  cases hrel with
  | @some h _ hs =>
    exact ⟨h, block_alone h allocated s' growing growingReplies hs hruns 0x1008 0x3008
      ⟨3, 0x40, [0, 0, 0], rfl⟩ ⟨5, 0x42, [0, 7, 8, 0, 0], rfl⟩ rfl rfl⟩

end Metroskrew.Dlls.GlobalHeap
