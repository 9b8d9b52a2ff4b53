import Metroskrew.Patch.DepfileBuild

/-! `depfile_escape_spaces` on memory: the text it is meant to store, and the calls that do. -/

namespace Metroskrew.Patch.EscapeSpaces

def escape : CString → CString
  | [] => []
  | c :: s => if c = 0x20 then 0x5c :: 0x20 :: escape s else c :: escape s

def unescape : CString → CString
  | [] => []
  | [c] => [c]
  | b :: c :: s => if b = 0x5c ∧ c = 0x20 then 0x20 :: unescape s else b :: unescape (c :: s)

lemma escape_length (s : CString) : (escape s).length = s.length + s.count 0x20 := by
  induction s with
  | nil => rfl
  | cons c s ih =>
    rw [escape]
    by_cases hc : c = 0x20
    · rw [if_pos hc, hc, List.count_cons_self]
      simp only [List.length_cons, ih]
      omega
    · rw [if_neg hc, List.count_cons_of_ne hc]
      simp only [List.length_cons, ih]
      omega

lemma escape_head (s : CString) : (escape s).head? ≠ some 0x20 := by
  cases s with
  | nil => simp [escape]
  | cons c s =>
    rw [escape]
    split_ifs with hc
    · simp
    · simpa using hc

lemma unescape_cons {b : UInt8} {s : CString} (hs : s.head? ≠ some 0x20) :
    unescape (b :: s) = b :: unescape s := by
  cases s with
  | nil => rfl
  | cons c s =>
    rw [unescape, if_neg]
    rintro ⟨_, hc⟩
    exact hs (congrArg some hc)

lemma unescape_escape (s : CString) : unescape (escape s) = s := by
  induction s with
  | nil => rfl
  | cons c s ih =>
    rw [escape]
    split_ifs with hc
    · rw [unescape, if_pos ⟨rfl, rfl⟩, ih, hc]
    · rw [unescape_cons (escape_head s), ih]

inductive Pointer where
  | src
  | dst
  deriving Repr, DecidableEq

/-- A call that has returned: the pointer it gives back, the bytes stored from `dst` on, and how many
of those from `src` on were read. -/
structure Call where
  ret : Pointer
  stored : List UInt8
  read : ℕ
  deriving Repr, DecidableEq

variable (mem : ℕ → UInt8)

/-- The loop, for at most `fuel` turns; `mem` holds the bytes from `src` on, where `s` stays. -/
def loop : ℕ → ℕ → List UInt8 → Option Call
  | 0, _, _ => none
  | fuel + 1, src, d =>
    if mem 0 ≠ 0 then
      loop fuel (src + 1) ((if mem 0 = 0x20 then d ++ [0x5c] else d) ++ [mem src])
    else some ⟨.dst, d ++ [0], max 1 src⟩

def escapeSpaces (fuel : ℕ) (doit : Bool) : Option Call :=
  if doit = false then some ⟨.src, [], 0⟩ else loop mem fuel 0 []

structure StringAt (src : CString) : Prop where
  bytes : ∀ i (h : i < src.length), mem i = src[i]
  nonzero : 0 ∉ src
  terminated : mem src.length = 0

/-- The call ends, reads up to the terminator at most, and stores the escaped string, or nothing. -/
def Escapes (src : CString) (doit : Bool) : Prop :=
  ∃ fuel call, escapeSpaces mem fuel doit = some call ∧ call.read ≤ src.length + 1 ∧
    (doit = true → call.ret = .dst ∧ ∃ text, call.stored = text ++ [0] ∧ text = escape src ∧
      text.length = src.length + src.count 0x20 ∧ unescape text = src) ∧
    (doit = false → call.ret = .src ∧ call.stored = [])

variable {mem} {src : CString}

lemma loop_forever (h : mem 0 ≠ 0) (fuel n : ℕ) (d : List UInt8) : loop mem fuel n d = none := by
  induction fuel generalizing n d with
  | zero => rfl
  | succ fuel ih => rw [loop, if_pos h, ih]

lemma StringAt.empty_iff (h : StringAt mem src) : mem 0 = 0 ↔ src = [] := by
  cases src with
  | nil => simpa using h.terminated
  | cons c s =>
    have hc : mem 0 = c := h.bytes 0 (by simp)
    have hne : c ≠ 0 := fun hc => h.nonzero (hc ▸ List.mem_cons_self)
    simp [hc, hne]

lemma escapeSpaces_zero (h : mem 0 = 0) (fuel : ℕ) :
    escapeSpaces mem (fuel + 1) true = some ⟨.dst, [0], 1⟩ := by
  simp [escapeSpaces, loop, h]

lemma escapeLoop_forever {s : CString} (h : s ≠ []) (d src : CString) :
    escapeLoop s d src = none := by
  induction src generalizing d with
  | nil => rw [escapeLoop, if_neg h]
  | cons c src ih => rw [escapeLoop, if_neg h, ih]

/-- `depfile_build` gets no text back exactly when the call does not return. -/
theorem depfileEscapeSpaces_some (h : StringAt mem src) (doit : Bool) (text : CString) :
    depfileEscapeSpaces doit src = some text ↔
      ∃ fuel call, escapeSpaces mem fuel doit = some call ∧
        match call.ret with
        | .src => text = src
        | .dst => call.stored = text ++ [0] := by
  cases doit with
  | false => simp [depfileEscapeSpaces, escapeSpaces, eq_comm]
  | true =>
    by_cases hsrc : src = []
    · have hzero := h.empty_iff.mpr hsrc
      subst hsrc
      have hnil : depfileEscapeSpaces true [] = some [] := by
        simp [depfileEscapeSpaces, escapeLoop]
      rw [hnil, Option.some.injEq]
      constructor
      · rintro rfl
        exact ⟨1, _, escapeSpaces_zero hzero 0, rfl⟩
      · rintro ⟨fuel, call, hcall, htext⟩
        cases fuel with
        | zero => cases hcall
        | succ fuel =>
          rw [escapeSpaces_zero hzero] at hcall
          cases hcall
          simpa using htext
    · have hzero := mt h.empty_iff.mp hsrc
      simp [depfileEscapeSpaces, escapeSpaces, escapeLoop_forever hsrc, loop_forever hzero]

/-- The loop condition never moves on: only a string without characters is escaped. -/
theorem escapes_iff (mem : ℕ → UInt8) (src : CString) (doit : Bool) (h : StringAt mem src) :
    Escapes mem src doit ↔ doit = false ∨ src = [] := by
  cases doit with
  | false => exact ⟨fun _ => .inl rfl, fun _ => ⟨0, _, rfl, by simp, by simp, fun _ => ⟨rfl, rfl⟩⟩⟩
  | true =>
    rw [Escapes]
    by_cases hsrc : src = []
    · have hzero := h.empty_iff.mpr hsrc
      subst hsrc
      refine ⟨fun _ => .inr rfl, fun _ => ?_⟩
      refine ⟨1, _, escapeSpaces_zero hzero 0, le_rfl, fun _ => ?_, by simp⟩
      exact ⟨rfl, [], rfl, rfl, escape_length [], unescape_escape []⟩
    · have hzero := mt h.empty_iff.mp hsrc
      simp [escapeSpaces, loop_forever hzero, hsrc]

def memory (s : CString) : ℕ → UInt8 := fun i => s.getD i 0

lemma memory_stringAt {s : CString} (h : 0 ∉ s) : StringAt (memory s) s where
  bytes i hi := by simp [memory, hi]
  nonzero := h
  terminated := by simp [memory]

theorem escapes_empty : Escapes (memory []) [] true :=
  (escapes_iff (memory []) [] true (memory_stringAt (by decide))).mpr (.inr rfl)

theorem loops_on_space : StringAt (memory (ascii "a b")) (ascii "a b") ∧
    ¬ Escapes (memory (ascii "a b")) (ascii "a b") true := by
  refine ⟨memory_stringAt (by decide +kernel), ?_⟩
  rintro ⟨fuel, call, hcall, -⟩
  rw [escapeSpaces, if_neg (by decide), loop_forever (by decide +kernel)] at hcall
  cases hcall

end Metroskrew.Patch.EscapeSpaces
