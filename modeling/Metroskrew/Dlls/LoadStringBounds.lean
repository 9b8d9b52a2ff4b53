import Metroskrew.Dlls.User32

/-! The copy of `LoadStringA` step by step: how many steps it takes, and what it stores in `lpBuffer`
for a bound of any sign. -/

namespace Metroskrew.Dlls.LoadStringBounds

open Metroskrew.Dlls

/-- `x`, what `str` points to, and what is stored from `lpBuffer` up to `dst`. -/
structure Copy where
  x : ℤ
  str : List UInt16
  dst : List UInt8
  deriving Repr, DecidableEq

/-- One step of `for (INT x = res; x; x--)`. There is none outside the memory of the strings, nor
where `x` leaves the range of an INT. -/
def copyStep (c : Copy) : Option Copy :=
  if c.x = 0 ∨ c.x = -2 ^ 31 then none
  else
    match c.str with
    | [] => none
    | char :: str => some ⟨c.x - 1, str, c.dst ++ [char.toUInt8]⟩

def copyRun : ℕ → Copy → Option Copy
  | 0, c => some c
  | steps + 1, c => (copyStep c).bind (copyRun steps)

inductive Begun where
  | died
  | missing
  | copy (c : Copy)
  deriving Repr, DecidableEq

def loadStringBegin (peRsrcStrings : List RsrcStrings) (hInstance uID : UInt32)
    (cchBufferMax : Int32) : Option Begun :=
  if acceptedInstance hInstance = false then some .died
  else
    match findStrings (uID >>> 4 + 1) peRsrcStrings with
    | none => none
    | some none => some .missing
    | some (some str) =>
      match skipStrings (uID &&& 0xf).toNat str with
      | none => none
      | some [] => none
      | some (len :: str) =>
        let res : ℤ := len.toNat
        -- `cchBufferMax - 1` is outside the range of an INT
        if cchBufferMax = Int32.minValue then none
        else
          let res := if cchBufferMax.toInt - 1 < res then cchBufferMax.toInt - 1 else res
          some (.copy ⟨res, str, []⟩)

/-- The calls that come to an end: the steps of the copy, the bytes stored from `lpBuffer` on, and
the value returned if there is one. -/
inductive Ends (peRsrcStrings : List RsrcStrings) (hInstance uID : UInt32) (cchBufferMax : Int32) :
    ℕ → List UInt8 → Option ℤ → Prop
  | died (h : loadStringBegin peRsrcStrings hInstance uID cchBufferMax = some .died) :
    Ends peRsrcStrings hInstance uID cchBufferMax 0 [] none
  | missing (h : loadStringBegin peRsrcStrings hInstance uID cchBufferMax = some .missing) :
    Ends peRsrcStrings hInstance uID cchBufferMax 0 [] (some 0)
  | copied (steps : ℕ) (c ended : Copy)
    (h : loadStringBegin peRsrcStrings hInstance uID cchBufferMax = some (.copy c))
    (hrun : copyRun steps c = some ended) (hend : ended.x = 0) :
    Ends peRsrcStrings hInstance uID cchBufferMax steps (ended.dst ++ [0]) (some c.x)

/-- The copy ends inside the buffer, and the count is not negative. -/
def StaysInside (peRsrcStrings : List RsrcStrings) (hInstance uID : UInt32) (cchBufferMax : Int32) :
    Prop :=
  ∃ steps written res, Ends peRsrcStrings hInstance uID cchBufferMax steps written res ∧
    (steps : ℤ) ≤ max (cchBufferMax.toInt - 1) 0 ∧
    (written.length : ℤ) ≤ max cchBufferMax.toInt 0 ∧
    ∀ n ∈ res, 0 ≤ n

/-- Sixteen strings with a 16-bit length each, at the start of the memory. -/
structure IsStrings (strings : List (List UInt16)) (data : List UInt16) : Prop where
  sixteen : strings.length = 16
  short : ∀ s ∈ strings, s.length < 0x10000
  laid : blockData strings <+: data

lemma copyStep_some {c d : Copy} (h : copyStep c = some d) :
    d.x = c.x - 1 ∧ c.x ≠ 0 ∧ ∃ char, c.str = char :: d.str ∧ d.dst = c.dst ++ [char.toUInt8] := by
  rw [copyStep] at h
  split_ifs at h with hx
  rw [not_or] at hx
  cases hstr : c.str with
  | nil =>
    rw [hstr] at h
    cases h
  | cons char str =>
    rw [hstr] at h
    obtain rfl := Option.some.inj h
    exact ⟨rfl, hx.1, char, rfl, rfl⟩

lemma copyRun_counts {steps : ℕ} {c d : Copy} (h : copyRun steps c = some d) :
    d.x = c.x - steps ∧ d.dst.length = c.dst.length + steps := by
  induction steps generalizing c with
  | zero =>
    obtain rfl := Option.some.inj h
    simp
  | succ steps ih =>
    obtain ⟨e, hstep, hrest⟩ := Option.bind_eq_some_iff.mp h
    obtain ⟨hx, -, char, -, hdst⟩ := copyStep_some hstep
    obtain ⟨hrx, hrdst⟩ := ih hrest
    rw [hdst, List.length_append, List.length_singleton] at hrdst
    constructor
    · rw [hrx, hx]
      push_cast
      ring
    · omega

lemma copyRun_ends (n : ℕ) (str : List UInt16) (dst : List UInt8) (h : n ≤ str.length) :
    copyRun n ⟨n, str, dst⟩ =
      some ⟨0, str.drop n, dst ++ (str.take n).map UInt16.toUInt8⟩ := by
  induction n generalizing str dst with
  | zero => simp [copyRun]
  | succ n ih =>
    cases str with
    | nil => simp at h
    | cons char str =>
      have hstep : copyStep ⟨(n + 1 : ℕ), char :: str, dst⟩ =
          some ⟨n, str, dst ++ [char.toUInt8]⟩ := by
        rw [copyStep, if_neg (by push_cast; omega)]
        simp
      rw [copyRun, hstep, Option.bind_some, ih _ _ (Nat.le_of_succ_le_succ h)]
      simp

lemma findStrings_first {id : UInt32} {table : List RsrcStrings} (rest : List RsrcStrings)
    (hzero : ∀ rsrc ∈ table, rsrc.id ≠ 0) (h : ∃ rsrc ∈ table, rsrc.id = id) :
    ∃ rsrc ∈ table, findStrings id (table ++ rest) = some (some rsrc.data) := by
  induction table with
  | nil => simp at h
  | cons first table ih =>
    rw [List.cons_append, findStrings, if_neg (hzero first List.mem_cons_self)]
    by_cases hfirst : first.id = id
    · rw [if_pos hfirst]
      exact ⟨first, List.mem_cons_self, rfl⟩
    · obtain ⟨rsrc, hmem, hid⟩ := h
      have hlater : rsrc ∈ table := by
        rcases List.mem_cons.mp hmem with rfl | hlater
        · exact absurd hid hfirst
        · exact hlater
      obtain ⟨found, hfound, heq⟩ :=
        ih (fun r hr => hzero r (List.mem_cons_of_mem first hr)) ⟨rsrc, hlater, hid⟩
      rw [if_neg hfirst]
      exact ⟨found, List.mem_cons_of_mem first hfound, heq⟩

lemma skipStrings_nth {strings : List (List UInt16)} {data : List UInt16}
    (h : IsStrings strings data) (uID : UInt32) :
    ∃ len str, skipStrings (uID &&& 0xf).toNat data = some (len :: str) ∧
      len.toNat ≤ str.length := by
  have hn : (uID &&& 0xf).toNat < strings.length := by
    rw [h.sixteen]
    exact nth_lt_sixteen uID
  obtain ⟨after, rfl⟩ := h.laid
  have hskip := skipStrings_block h.short hn after
  rw [List.drop_eq_getElem_cons hn, blockData_cons, List.cons_append, List.append_assoc] at hskip
  refine ⟨_, _, hskip, ?_⟩
  rw [toUInt16_length (h.short _ (List.getElem_mem hn)), List.length_append]
  exact Nat.le_add_right _ _

/-- The memory from `lpBuffer` on after these bytes are stored. -/
def storing (written : List UInt8) (mem : ℕ → UInt8) : ℕ → UInt8 := fun i =>
  written.getD i (mem i)

lemma storing_snoc (written : List UInt8) (b : UInt8) (mem : ℕ → UInt8) :
    storing (written ++ [b]) mem = Function.update (storing written mem) written.length b := by
  funext i
  rw [storing, List.getD_eq_getElem?_getD]
  rcases lt_trichotomy i written.length with hlt | rfl | hgt
  · rw [Function.update_of_ne hlt.ne, List.getElem?_append_left hlt, storing,
      List.getD_eq_getElem?_getD]
  · rw [Function.update_self, List.getElem?_concat_length, Option.getD_some]
  · have hnone : (written ++ [b])[i]? = none := by
      rw [List.getElem?_eq_none_iff, List.length_append, List.length_singleton]
      exact hgt
    rw [Function.update_of_ne hgt.ne', hnone, storing, List.getD_eq_getElem?_getD,
      List.getElem?_eq_none_iff.mpr hgt.le]

lemma copyRun_copyString {steps : ℕ} {c ended : Copy} (h : copyRun steps c = some ended)
    (mem : ℕ → UInt8) :
    copyString steps c.str c.dst.length (storing c.dst mem) =
      some (storing (ended.dst ++ [0]) mem) := by
  induction steps generalizing c with
  | zero =>
    obtain rfl := Option.some.inj h
    rw [copyString, storing_snoc]
  | succ steps ih =>
    obtain ⟨d, hstep, hrest⟩ := Option.bind_eq_some_iff.mp h
    obtain ⟨-, -, char, hstr, hdst⟩ := copyStep_some hstep
    have hnext := ih hrest
    rw [hdst, storing_snoc, List.length_append, List.length_singleton] at hnext
    rw [hstr, copyString, hnext]

lemma loadStringBegin_cases {table : List RsrcStrings} {hInstance uID : UInt32}
    {cchBufferMax : Int32} {b : Begun}
    (h : loadStringBegin table hInstance uID cchBufferMax = some b) :
    acceptedInstance hInstance = false ∧ b = .died ∨
    acceptedInstance hInstance = true ∧ findStrings (uID >>> 4 + 1) table = some none ∧
      b = .missing ∨
    acceptedInstance hInstance = true ∧ ∃ str len rest,
      findStrings (uID >>> 4 + 1) table = some (some str) ∧
      skipStrings (uID &&& 0xf).toNat str = some (len :: rest) ∧
      b = .copy ⟨if cchBufferMax.toInt - 1 < (len.toNat : ℤ) then cchBufferMax.toInt - 1
        else len.toNat, rest, []⟩ := by
  rw [loadStringBegin] at h
  cases hinst : acceptedInstance hInstance with
  | false =>
    rw [if_pos hinst] at h
    exact Or.inl ⟨rfl, (Option.some.inj h).symm⟩
  | true =>
    rw [if_neg (by simp [hinst])] at h
    right
    split at h
    · cases h
    · rename_i hfind
      exact Or.inl ⟨rfl, hfind, (Option.some.inj h).symm⟩
    · rename_i str hfind
      right
      split at h
      · cases h
      · cases h
      · rename_i len rest hskip
        by_cases hmin : cchBufferMax = Int32.minValue
        · rw [if_pos hmin] at h
          cases h
        · rw [if_neg hmin] at h
          exact ⟨rfl, str, len, rest, hfind, hskip, (Option.some.inj h).symm⟩

/-- A call that comes to an end and returns does so in the model without steps. -/
theorem loadStringA_of_ends {table : List RsrcStrings} {hInstance uID : UInt32}
    {cchBufferMax : Int32} {steps : ℕ} {written : List UInt8} {n : ℤ} (mem : ℕ → UInt8)
    (h : Ends table hInstance uID cchBufferMax steps written (some n)) :
    loadStringA table hInstance uID mem cchBufferMax.toInt = some (n, storing written mem) := by
  cases h with
  | missing h =>
    obtain ⟨-, hb⟩ | ⟨hinst, hfind, -⟩ | ⟨-, _, _, _, -, -, hb⟩ := loadStringBegin_cases h
    · cases hb
    · rw [loadStringA, if_neg (by simp [hinst]), hfind]
      rfl
    · cases hb
  | copied steps c ended h hrun hend =>
    obtain ⟨-, hb⟩ | ⟨-, -, hb⟩ | ⟨hinst, str, len, rest, hfind, hskip, hb⟩ :=
      loadStringBegin_cases h
    · cases hb
    · cases hb
    · obtain rfl := Begun.copy.inj hb
      obtain ⟨hcount, -⟩ := copyRun_counts hrun
      have hcopy := copyRun_copyString hrun mem
      dsimp only at hcount hcopy
      rw [hend] at hcount
      have hsteps := (sub_eq_zero.mp hcount.symm)
      rw [loadStringA, if_neg (by simp [hinst]), hfind]
      simp only [hskip]
      rw [hsteps, if_neg (by omega), Int.toNat_natCast]
      exact congrArg _ hcopy

section Table

variable {table rest : List RsrcStrings} {close : RsrcStrings} {hInstance uID : UInt32}
  {cchBufferMax : Int32}

variable (rest close cchBufferMax) in
lemma begin_copy (hinst : acceptedInstance hInstance = true)
    (hzero : ∀ rsrc ∈ table, rsrc.id ≠ 0)
    (hblocks : ∀ rsrc ∈ table, ∃ strings, IsStrings strings rsrc.data)
    (hfound : ∃ rsrc ∈ table, rsrc.id = uID >>> 4 + 1) :
    ∃ (len : ℕ) (str : List UInt16), len ≤ str.length ∧
      loadStringBegin (table ++ close :: rest) hInstance uID cchBufferMax =
        if cchBufferMax = Int32.minValue then none
        else some (.copy ⟨min len (cchBufferMax.toInt - 1), str, []⟩) := by
  obtain ⟨rsrc, hmem, hfind⟩ := findStrings_first (close :: rest) hzero hfound
  obtain ⟨strings, hstrings⟩ := hblocks rsrc hmem
  obtain ⟨len, str, hskip, hlen⟩ := skipStrings_nth hstrings uID
  refine ⟨len.toNat, str, hlen, ?_⟩
  have hres : (if cchBufferMax.toInt - 1 < (len.toNat : ℤ) then cchBufferMax.toInt - 1
      else len.toNat) = min (len.toNat : ℤ) (cchBufferMax.toInt - 1) := by
    split_ifs <;> omega
  rw [loadStringBegin, if_neg (by simp [hinst]), hfind]
  simp only [hskip, hres]

lemma staysInside_missing (hinst : acceptedInstance hInstance = true) (hclose : close.id = 0)
    (hzero : ∀ rsrc ∈ table, rsrc.id ≠ 0) (hmissing : ∀ rsrc ∈ table, rsrc.id ≠ uID >>> 4 + 1) :
    StaysInside (table ++ close :: rest) hInstance uID cchBufferMax := by
  refine ⟨0, [], some 0, .missing ?_, by simp, by simp, by simp⟩
  rw [loadStringBegin, if_neg (by simp [hinst]),
    findStrings_missing hclose fun rsrc hmem => ⟨hzero rsrc hmem, hmissing rsrc hmem⟩]

lemma staysInside_found (hinst : acceptedInstance hInstance = true)
    (hzero : ∀ rsrc ∈ table, rsrc.id ≠ 0)
    (hblocks : ∀ rsrc ∈ table, ∃ strings, IsStrings strings rsrc.data)
    (hfound : ∃ rsrc ∈ table, rsrc.id = uID >>> 4 + 1) (hmax : 1 ≤ cchBufferMax.toInt) :
    StaysInside (table ++ close :: rest) hInstance uID cchBufferMax := by
  obtain ⟨len, str, hlen, hbegin⟩ :=
    begin_copy rest close cchBufferMax hinst hzero hblocks hfound
  have hmin : cchBufferMax ≠ Int32.minValue := by
    rintro rfl
    revert hmax
    decide +kernel
  obtain ⟨n, hn⟩ : ∃ n : ℕ, min (len : ℤ) (cchBufferMax.toInt - 1) = n :=
    Int.eq_ofNat_of_zero_le (by omega)
  rw [if_neg hmin, hn] at hbegin
  have hrun := copyRun_ends n str [] (by omega)
  refine ⟨n, _, _, .copied n _ _ hbegin hrun rfl, by omega, ?_, ?_⟩
  · have hcopied : (([] : List UInt8) ++ (str.take n).map UInt16.toUInt8).length = n := by
      rw [List.nil_append, List.length_map, List.length_take_of_le (by omega)]
    rw [List.length_append, hcopied, List.length_singleton]
    omega
  · rintro r hr
    obtain rfl := Option.some.inj hr
    exact Int.natCast_nonneg n

/-- The counter of a bound of zero or less is below zero from the start, and no step stops it. -/
lemma not_ends (hinst : acceptedInstance hInstance = true)
    (hzero : ∀ rsrc ∈ table, rsrc.id ≠ 0)
    (hblocks : ∀ rsrc ∈ table, ∃ strings, IsStrings strings rsrc.data)
    (hfound : ∃ rsrc ∈ table, rsrc.id = uID >>> 4 + 1) (hmax : cchBufferMax.toInt ≤ 0)
    {steps : ℕ} {written : List UInt8} {res : Option ℤ} :
    ¬ Ends (table ++ close :: rest) hInstance uID cchBufferMax steps written res := by
  obtain ⟨len, str, -, hbegin⟩ :=
    begin_copy rest close cchBufferMax hinst hzero hblocks hfound
  intro hends
  cases hends with
  | died h =>
    rw [h] at hbegin
    split_ifs at hbegin
    cases hbegin
  | missing h =>
    rw [h] at hbegin
    split_ifs at hbegin
    cases hbegin
  | copied steps c ended h hrun hend =>
    rw [h] at hbegin
    split_ifs at hbegin with hmin
    obtain ⟨rfl⟩ := Begun.copy.inj (Option.some.inj hbegin)
    obtain ⟨hx, -⟩ := copyRun_counts hrun
    dsimp only at hx
    omega

end Table

/-- The copy stays inside the buffer exactly for a bound above zero, where there is one at all. -/
theorem staysInside_iff (table rest : List RsrcStrings) (close : RsrcStrings)
    (hInstance uID : UInt32) (cchBufferMax : Int32) (hzero : ∀ rsrc ∈ table, rsrc.id ≠ 0)
    (hclose : close.id = 0) (hblocks : ∀ rsrc ∈ table, ∃ strings, IsStrings strings rsrc.data) :
    StaysInside (table ++ close :: rest) hInstance uID cchBufferMax ↔
      1 ≤ cchBufferMax.toInt ∨ (∀ rsrc ∈ table, rsrc.id ≠ uID >>> 4 + 1) ∨
        acceptedInstance hInstance = false := by
  cases hinst : acceptedInstance hInstance with
  | false =>
    have hdied : StaysInside (table ++ close :: rest) hInstance uID cchBufferMax :=
      ⟨0, [], none, .died (by rw [loadStringBegin, if_pos hinst]), by simp, by simp, by simp⟩
    simp [hdied]
  | true =>
    by_cases hfound : ∃ rsrc ∈ table, rsrc.id = uID >>> 4 + 1
    · constructor
      · rintro ⟨steps, written, res, hends, -⟩
        by_contra hnot
        rw [not_or] at hnot
        exact not_ends hinst hzero hblocks hfound (by omega) hends
      · rintro (hmax | hmissing | hdied)
        · exact staysInside_found hinst hzero hblocks hfound hmax
        · obtain ⟨rsrc, hmem, hid⟩ := hfound
          exact absurd hid (hmissing rsrc hmem)
        · cases hdied
    · have hmissing : ∀ rsrc ∈ table, rsrc.id ≠ uID >>> 4 + 1 := fun rsrc hmem hid =>
        hfound ⟨rsrc, hmem, hid⟩
      exact iff_of_true (staysInside_missing hinst hclose hzero hmissing) (Or.inr (Or.inl hmissing))

theorem staysInside_greeting :
    StaysInside (greetingTable ++ ⟨0, []⟩ :: []) 0x00400000 32 2 ↔
      1 ≤ (2 : Int32).toInt ∨ (∀ rsrc ∈ greetingTable, rsrc.id ≠ (32 : UInt32) >>> 4 + 1) ∨
        acceptedInstance 0x00400000 = false :=
  staysInside_iff greetingTable [] ⟨0, []⟩ 0x00400000 32 2 (by decide) rfl (by
    intro rsrc hmem
    rw [List.mem_singleton.mp hmem]
    exact ⟨greeting, by decide, by decide, [7], rfl⟩)

theorem not_staysInside_greeting :
    ¬ StaysInside (greetingTable ++ ⟨0, []⟩ :: []) 0x00400000 32 0 := by
  rintro ⟨steps, written, res, hends, -⟩
  refine not_ends (by decide) (by decide) ?_ (by decide) (by decide) hends
  intro rsrc hmem
  rw [List.mem_singleton.mp hmem]
  exact ⟨greeting, by decide, by decide, [7], rfl⟩

end Metroskrew.Dlls.LoadStringBounds
