import Metroskrew.Patch.ScanBounds

/-! Where the calls in a pattern go: the sums of `find_init` against those of `find_memreuse01`. -/

namespace Metroskrew.Patch

variable (binary : List UInt8)

variable {binary} {off : ℕ}

lemma int32_bounds {w : ℕ} (h : w < 2 ^ 32) : -2 ^ 31 ≤ int32 w ∧ int32 w < 2 ^ 31 := by
  rw [int32]
  split_ifs <;> omega

lemma readAt_some {at_ w : ℕ} (h : readAt binary at_ = some w) : at_ + 4 ≤ binary.length ∧ w < 2 ^ 32 := by
  obtain ⟨hin, rfl⟩ := readAt_iff.mp h
  exact ⟨hin, readU32_lt binary at_⟩

structure IsCall (call : Region) : Prop where
  off_nonneg : 0 ≤ call.off
  opcode : call.data = [0xe8]

lemma memreuseStart_target {call : Region} {operand target : ℕ} (hlen : binary.length < 2 ^ 63)
    (hcall : IsCall call) (hread : readAt binary (call.next off) = some operand)
    (htarget : (target : ℤ) = off + call.off + 5 + int32 operand) :
    memreuseStart binary off call = some target := by
  obtain ⟨hin, hlt⟩ := readAt_some hread
  obtain ⟨hlo, hhi⟩ := int32_bounds hlt
  have hoff := hcall.off_nonneg
  have hsize : call.data.length = 1 := by rw [hcall.opcode]; rfl
  rw [Region.next, hsize] at hin
  simp only [memreuseStart, hread, bind, Option.bind_some, Option.some.injEq, hsize]
  rw [show ((off : ℤ) + call.off + (1 : ℕ) + 4 + int32 operand) = target by push_cast; omega]
  exact sizeT_cast (by omega)

lemma initStart_target {call : Region} {operand target : ℕ} (hlen : binary.length < 2 ^ 63)
    (hcall : IsCall call) (hread : readAt binary (call.next off) = some operand)
    (htarget : (target : ℤ) = off + call.off + 5 + int32 operand) :
    initStart binary off call = some target ↔ 0 ≤ int32 operand := by
  obtain ⟨hin, hlt⟩ := readAt_some hread
  have hoff := hcall.off_nonneg
  have hsize : call.data.length = 1 := by rw [hcall.opcode]; rfl
  rw [Region.next, hsize] at hin
  simp only [initStart, hread, bind, Option.bind_some, Option.some.injEq]
  rw [sizeT]
  rw [int32] at htarget ⊢
  split_ifs at htarget ⊢ <;> omega

/-- The starts that the finders return for the functions called from their patterns are these sums, at
the places where the patterns are found. -/
structure StartsReturned (binary : List UInt8) : Prop where
  init : ∀ off locs, scanReads binary initSentinel initRest 0 = some (some off) →
    findInit binary = some locs → (locs.drop 3).map (fun loc => (loc.name, some loc.start)) =
      [("init_args", initStart binary off callInitArgs),
        ("init_envp", initStart binary off callInitEnvp), ("main", initStart binary off callMain)]
  memreuse : ∀ off locs, scanReads binary memreuseCode memreuseRest 0 = some (some off) →
    findMemreuse01 binary = some locs → (locs.drop 5).map (fun loc => (loc.name, some loc.start)) =
      [("prog_malloc", memreuseStart binary off memreuseMalloc),
        ("FUN_004f8b60", memreuseStart binary off memreuseCall)]

lemma startsReturned (binary : List UInt8) : StartsReturned binary := by
  constructor
  · intro off locs hscan h
    simp only [findInit, hscan, bind, Option.bind_some, Option.bind_eq_some_iff,
      Option.some.injEq] at h
    obtain ⟨envp, -, argv, -, argc, -, args, hargs, argsEnd, -, env, henv, envEnd, -, main, hmain,
      rfl⟩ := h
    simp [hargs, henv, hmain]
  · intro off locs hscan h
    simp only [findMemreuse01, hscan, bind, Option.bind_some, Option.bind_eq_some_iff,
      Option.some.injEq] at h
    obtain ⟨a, -, b, -, c, -, d, -, malloc, hmalloc, call, hcall, rfl⟩ := h
    simp [hmalloc, hcall]

lemma isCall_init {call : Region} (h : call ∈ [callInitArgs, callInitEnvp, callMain]) : IsCall call := by
  simp only [List.mem_cons, List.not_mem_nil, or_false] at h
  rcases h with rfl | rfl | rfl <;> exact ⟨by decide, rfl⟩

/-- The starts that the two finders return follow one rule, and are where the calls go, iff the call of
`find_init` goes forward. -/
theorem call_targets_iff (binary : List UInt8) (off : ℕ) (call : Region) (operand target : ℕ)
    (hlen : binary.length < 2 ^ 63) (hcall : call ∈ [callInitArgs, callInitEnvp, callMain])
    (hread : readAt binary (call.next off) = some operand)
    (htarget : (target : ℤ) = off + call.off + 5 + int32 operand) :
    StartsReturned binary ∧
      (initStart binary off call = some target ∧
          initStart binary off call = memreuseStart binary off call ↔
        0 ≤ int32 operand) := by
  refine ⟨startsReturned binary, ?_⟩
  rw [memreuseStart_target hlen (isCall_init hcall) hread htarget, and_self_iff]
  exact initStart_target hlen (isCall_init hcall) hread htarget

/-- A call 32 bytes back, from a place with room for that. -/
def backwardCall : List UInt8 :=
  List.replicate 32 0 ++ initImage [0xe0, 0xff, 0xff, 0xff] [0, 0, 0, 0] [0, 0, 0, 0]

/-- The call of `main` goes 32 bytes back, the others go to the byte behind them. -/
def backwardMain : List UInt8 := initImage [0, 0, 0, 0] [0, 0, 0, 0] [0xe0, 0xff, 0xff, 0xff]

theorem call_targets_backward :
    (scan backwardCall initSentinel initRest 0 = some 32 ∧
      initStart backwardCall 32 callInitArgs = some (2 ^ 32 + 17) ∧
      memreuseStart backwardCall 32 callInitArgs = some 17) ∧
    (scan backwardMain initSentinel initRest 0 = some 0 ∧
      (findInit backwardMain).map (fun locs => locs.getLast?) =
        some (some ⟨"main", 2 ^ 32 + 24, 2 ^ 32 + 24, false⟩) ∧
      memreuseStart backwardMain 0 callMain = some 24) := by
  decide +kernel

def forwardCall : List UInt8 :=
  initImage [0x10, 0, 0, 0] [0x14, 0, 0, 0] [0xfc, 0, 0, 0] ++ List.replicate 16 0x90

theorem call_targets_forward :
    initStart forwardCall 0 callInitArgs = some 33 ∧
      initStart forwardCall 0 callInitArgs = memreuseStart forwardCall 0 callInitArgs :=
  (call_targets_iff forwardCall 0 callInitArgs 0x10 33 (by decide +kernel) (by simp)
    (by decide +kernel) (by decide +kernel)).2.mpr (by decide)

end Metroskrew.Patch
