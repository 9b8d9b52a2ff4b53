import Metroskrew.Relink.DumpAsm

/-! `LoadStringA` on the string table at `pe_rsrc_strings`. Where the program ends, or reads outside
the table or a block, there is no result. -/

namespace Metroskrew.Dlls

/-- `struct rsrc_strings`; `data` is the memory its pointer leads to. -/
structure RsrcStrings where
  id : UInt32
  data : List UInt16
  deriving Repr, DecidableEq

/-- The search for a set of 16 strings; `some none` is a NULL `str`. -/
def findStrings (id : UInt32) : List RsrcStrings → Option (Option (List UInt16))
  | [] => none
  | rsrc :: rest =>
    if rsrc.id = 0 then some none
    else if rsrc.id = id then some (some rsrc.data)
    else findStrings id rest

/-- `for (c = uID & 0xf; c; c--) str += *str + 1` -/
def skipStrings : ℕ → List UInt16 → Option (List UInt16)
  | 0, str => some str
  | _ + 1, [] => none
  | c + 1, len :: str => skipStrings c (str.drop len.toNat)

/-- The copy of `x` characters to `dst`, and the terminator after them. -/
def copyString : ℕ → List UInt16 → ℕ → (ℕ → UInt8) → Option (ℕ → UInt8)
  | 0, _, dst, mem => some (Function.update mem dst 0)
  | _ + 1, [], _, _ => none
  | x + 1, c :: str, dst, mem => copyString x str (dst + 1) (Function.update mem dst c.toUInt8)

def acceptedInstance (hInstance : UInt32) : Bool :=
  hInstance = 0 || hInstance = -1 || hInstance = 0x00400000

/-- The value returned, and the memory from `lpBuffer` on. -/
def loadStringA (peRsrcStrings : List RsrcStrings) (hInstance uID : UInt32) (lpBuffer : ℕ → UInt8)
    (cchBufferMax : ℤ) : Option (ℤ × (ℕ → UInt8)) :=
  if acceptedInstance hInstance = false then none
  else
    match findStrings (uID >>> 4 + 1) peRsrcStrings with
    | none => none
    | some none => some (0, lpBuffer)
    | some (some str) =>
      match skipStrings (uID &&& 0xf).toNat str with
      | none => none
      | some [] => none
      | some (len :: str) =>
        let res : ℤ := len.toNat
        let res := if cchBufferMax - 1 < res then cchBufferMax - 1 else res
        -- below zero the copy has no end
        if res < 0 then none
        else (res, ·) <$> copyString res.toNat str 0 lpBuffer

/-- Strings laid end to end, each after its length. -/
def blockData (strings : List (List UInt16)) : List UInt16 :=
  strings.flatMap fun s => s.length.toUInt16 :: s

structure IsBlock (strings : List (List UInt16)) (data : List UInt16) : Prop where
  sixteen : strings.length = 16
  short : ∀ s ∈ strings, s.length < 0x8000
  laid : blockData strings <+: data

/-- The low bytes of `s` and a NUL in front of what the memory holds. -/
def stored (s : List UInt16) (mem : ℕ → UInt8) : ℕ → UInt8 := fun i =>
  if h : i < s.length then s[i].toUInt8 else if i = s.length then 0 else mem i

variable {id hInstance : UInt32} {table : List RsrcStrings} {mem : ℕ → UInt8}

lemma findStrings_missing {close : RsrcStrings} {rest : List RsrcStrings} (hclose : close.id = 0)
    (h : ∀ rsrc ∈ table, rsrc.id ≠ 0 ∧ rsrc.id ≠ id) :
    findStrings id (table ++ close :: rest) = some none := by
  induction table with
  | nil => rw [List.nil_append, findStrings, if_pos hclose]
  | cons rsrc table ih =>
    obtain ⟨hzero, hid⟩ := h rsrc List.mem_cons_self
    rw [List.cons_append, findStrings, if_neg hzero, if_neg hid,
      ih fun rsrc' hmem => h rsrc' (List.mem_cons_of_mem rsrc hmem)]

lemma findStrings_found {rsrc : RsrcStrings} {rest : List RsrcStrings}
    (hmem : rsrc ∈ table) (hids : (table.map RsrcStrings.id).Nodup)
    (hzero : ∀ rsrc ∈ table, rsrc.id ≠ 0) :
    findStrings rsrc.id (table ++ rest) = some (some rsrc.data) := by
  induction table with
  | nil => cases hmem
  | cons first table ih =>
    rw [List.map_cons, List.nodup_cons] at hids
    rw [List.cons_append, findStrings, if_neg (hzero first List.mem_cons_self)]
    rcases List.mem_cons.mp hmem with rfl | hmem
    · rw [if_pos rfl]
    · have hne : first.id ≠ rsrc.id := fun he => hids.1 (he ▸ List.mem_map_of_mem hmem)
      rw [if_neg hne, ih hmem hids.2 fun r hr => hzero r (List.mem_cons_of_mem first hr)]

lemma toUInt16_length {s : List UInt16} (h : s.length < 0x10000) :
    s.length.toUInt16.toNat = s.length := by
  rw [Nat.toUInt16, UInt16.toNat_ofNat_of_lt' h]

lemma blockData_cons (s : List UInt16) (strings : List (List UInt16)) :
    blockData (s :: strings) = s.length.toUInt16 :: (s ++ blockData strings) := rfl

lemma skipStrings_block {strings : List (List UInt16)} (hshort : ∀ s ∈ strings, s.length < 0x10000)
    {n : ℕ} (hn : n < strings.length) (after : List UInt16) :
    skipStrings n (blockData strings ++ after) =
      some (blockData (strings.drop n) ++ after) := by
  induction n generalizing strings with
  | zero => rfl
  | succ n ih =>
    cases strings with
    | nil => simp at hn
    | cons s strings =>
      have hs := hshort s List.mem_cons_self
      have hlen := toUInt16_length (hshort s List.mem_cons_self)
      have htail := ih (fun s' hs' => hshort s' (List.mem_cons_of_mem s hs'))
        (Nat.lt_of_succ_lt_succ hn)
      calc skipStrings (n + 1) (blockData (s :: strings) ++ after)
          = skipStrings n ((s ++ (blockData strings ++ after)).drop s.length) := by
            rw [blockData_cons, List.cons_append, skipStrings, hlen, List.append_assoc]
        _ = some (blockData ((s :: strings).drop (n + 1)) ++ after) := by
            rw [List.drop_left, htail]
            rfl

lemma copyString_stored (s rest : List UInt16) (dst : ℕ) (mem : ℕ → UInt8) :
    copyString s.length (s ++ rest) dst mem =
      some fun i => if i < dst then mem i else stored s (fun j => mem (dst + j)) (i - dst) := by
  induction s generalizing dst mem with
  | nil =>
    rw [List.nil_append, List.length_nil, copyString]
    congr 1
    funext i
    rcases lt_trichotomy i dst with hlt | rfl | hgt
    · simp [hlt, hlt.ne]
    · simp [stored]
    · have hsub : dst + (i - dst) = i := by omega
      have hpos : i - dst ≠ 0 := by omega
      simp [stored, hgt.ne', hgt.not_gt, hsub, hpos]
  | cons c s ih =>
    rw [List.cons_append, List.length_cons, copyString, ih]
    congr 1
    funext i
    rcases lt_trichotomy i dst with hlt | rfl | hgt
    · rw [if_pos (by omega), if_pos hlt, Function.update_of_ne hlt.ne]
    · rw [if_pos (by omega), if_neg (lt_irrefl i), Function.update_self, Nat.sub_self]
      simp [stored]
    · obtain ⟨k, rfl⟩ : ∃ k, i = dst + 1 + k := ⟨i - (dst + 1), by omega⟩
      rw [if_neg (by omega), if_neg (by omega), show dst + 1 + k - (dst + 1) = k by omega,
        show dst + 1 + k - dst = k + 1 by omega]
      have hmem : Function.update mem dst c.toUInt8 (dst + 1 + k) = mem (dst + (k + 1)) := by
        rw [Function.update_of_ne (by omega)]
        congr 1
        omega
      simp only [stored, List.length_cons, Nat.add_lt_add_iff_right, Nat.add_right_cancel_iff,
        List.getElem_cons_succ, hmem]

lemma nth_lt_sixteen (uID : UInt32) : (uID &&& 0xf).toNat < 16 := by
  rw [UInt32.toNat_and]
  exact Nat.lt_of_le_of_lt Nat.and_le_right (by decide)

lemma loadStringA_missing (uID : UInt32) (cchBufferMax : ℤ) {close : RsrcStrings}
    {rest : List RsrcStrings} (hinst : acceptedInstance hInstance = true) (hclose : close.id = 0)
    (h : ∀ rsrc ∈ table, rsrc.id ≠ 0 ∧ rsrc.id ≠ uID >>> 4 + 1) :
    loadStringA (table ++ close :: rest) hInstance uID mem cchBufferMax = some (0, mem) := by
  rw [loadStringA, if_neg (by simp [hinst]), findStrings_missing hclose h]

lemma loadStringA_found (uID : UInt32) {cchBufferMax : ℤ} {rsrc : RsrcStrings}
    {strings : List (List UInt16)} {rest : List RsrcStrings}
    (hinst : acceptedInstance hInstance = true)
    (hids : (table.map RsrcStrings.id).Nodup) (hzero : ∀ rsrc ∈ table, rsrc.id ≠ 0)
    (hmem : rsrc ∈ table) (hid : rsrc.id = uID >>> 4 + 1) (hblock : IsBlock strings rsrc.data)
    (hmax : 1 ≤ cchBufferMax) :
    let s := strings.getD (uID &&& 0xf).toNat []
    loadStringA (table ++ rest) hInstance uID mem cchBufferMax =
      some (min (s.length : ℤ) (cchBufferMax - 1), stored (s.take (cchBufferMax - 1).toNat) mem) := by
  intro s
  have hn : (uID &&& 0xf).toNat < strings.length := by
    rw [hblock.sixteen]
    exact nth_lt_sixteen uID
  obtain ⟨after, hdata⟩ := hblock.laid
  have hs : strings[(uID &&& 0xf).toNat] = s := by
    simp only [s, List.getD_eq_getElem?_getD, List.getElem?_eq_getElem hn, Option.getD_some]
  have hshort : ∀ s ∈ strings, s.length < 0x10000 := fun s hs =>
    (hblock.short s hs).trans (by decide)
  have hskip := skipStrings_block hshort hn after
  rw [hdata, List.drop_eq_getElem_cons hn, hs, blockData_cons, List.cons_append,
    List.append_assoc] at hskip
  have hlen := toUInt16_length (hshort s (hs ▸ List.getElem_mem hn))
  rw [loadStringA, if_neg (by simp [hinst]), ← hid, findStrings_found hmem hids hzero]
  simp only [hskip, hlen]
  have hres : (if cchBufferMax - 1 < (s.length : ℤ) then cchBufferMax - 1 else s.length) =
      min (s.length : ℤ) (cchBufferMax - 1) := by
    split_ifs <;> omega
  have htake : (min (s.length : ℤ) (cchBufferMax - 1)).toNat =
      (s.take (cchBufferMax - 1).toNat).length := by
    rw [List.length_take]
    omega
  rw [hres, if_neg (by omega), htake]
  have hcopy := copyString_stored (s.take (cchBufferMax - 1).toNat)
    (s.drop (cchBufferMax - 1).toNat ++
      (blockData (strings.drop ((uID &&& 0xf).toNat + 1)) ++ after)) 0 mem
  rw [← List.append_assoc, List.take_append_drop] at hcopy
  rw [hcopy]
  simp

/-- Every string of every block comes back, cut to the buffer; without the block nothing is stored. -/
theorem loadStringA_decodes (table rest : List RsrcStrings) (close : RsrcStrings)
    (hInstance uID : UInt32) (lpBuffer : ℕ → UInt8) (cchBufferMax : ℤ)
    (strings : RsrcStrings → List (List UInt16)) (hinst : acceptedInstance hInstance = true)
    (hids : (table.map RsrcStrings.id).Nodup) (hzero : ∀ rsrc ∈ table, rsrc.id ≠ 0)
    (hclose : close.id = 0) (hblocks : ∀ rsrc ∈ table, IsBlock (strings rsrc) rsrc.data)
    (hmax : 1 ≤ cchBufferMax) :
    (∀ rsrc ∈ table, rsrc.id = uID >>> 4 + 1 →
      ∃ r, loadStringA (table ++ close :: rest) hInstance uID lpBuffer cchBufferMax =
          some (r, stored (((strings rsrc).getD (uID &&& 0xf).toNat []).take r.toNat) lpBuffer) ∧
        r = min (((strings rsrc).getD (uID &&& 0xf).toNat []).length : ℤ) (cchBufferMax - 1)) ∧
    ((∀ rsrc ∈ table, rsrc.id ≠ uID >>> 4 + 1) →
      loadStringA (table ++ close :: rest) hInstance uID lpBuffer cchBufferMax =
        some (0, lpBuffer)) := by
  constructor
  · intro rsrc hmem hid
    refine ⟨_, ?_, rfl⟩
    rw [loadStringA_found uID hinst hids hzero hmem hid (hblocks rsrc hmem) hmax]
    congr 3
    rw [List.take_eq_take_iff]
    omega
  · intro hmissing
    exact loadStringA_missing uID cchBufferMax hinst hclose fun rsrc hmem =>
      ⟨hzero rsrc hmem, hmissing rsrc hmem⟩

def greeting : List (List UInt16) :=
  [0x68, 0x69] :: [] :: [0x6f, 0x6b, 0x21] :: List.replicate 13 []

def greetingTable : List RsrcStrings := [⟨3, blockData greeting ++ [7]⟩]

/-- String 2 of the block, behind one with text and an empty one, and cut. -/
theorem loadStringA_greeting :
    loadStringA (greetingTable ++ ⟨0, []⟩ :: []) 0x00400000 34 (fun _ => 0xff) 3 =
      some (2, stored [0x6f, 0x6b] fun _ => 0xff) := by
  obtain ⟨r, hload, hr⟩ := (loadStringA_decodes greetingTable [] ⟨0, []⟩ 0x00400000 34 (fun _ => 0xff) 3
    (fun _ => greeting) (by decide) (by decide) (by decide) rfl (by
      intro rsrc hmem
      rw [List.mem_singleton.mp hmem]
      exact ⟨by decide, by decide, [7], rfl⟩) (by decide)).1 _ List.mem_cons_self (by decide)
  rw [hload, hr]
  rfl

section Dumped

open Metroskrew.Relink

/-- What the assembler makes of the lines at `pe_rsrc_strings`; `block id` is the memory from the
label `pe_rsrc_strings_<id>` on. -/
def assembled (block : ℕ → List UInt16) : Directive → List RsrcStrings
  | .rsrcEntry id => [⟨id.toUInt32, block id⟩]
  | .rsrcEnd => [⟨0, []⟩]
  | _ => []

variable (t : Tables) (block : ℕ → List UInt16)

def dumpedTable : List RsrcStrings :=
  (List.range t.rsrcStrings.num).map fun x =>
    ⟨(t.rsrcStrings.id.getD x 0).toUInt32, block (t.rsrcStrings.id.getD x 0)⟩

lemma assembled_rsrcTable :
    (rsrcTable t).flatMap (assembled block) = dumpedTable t block ++ [⟨0, []⟩] := by
  rw [rsrcTable, List.flatMap_append, List.flatMap_append, List.flatMap_map, dumpedTable,
    List.map_eq_flatMap]
  rfl

variable {t block}

/-- The strings of a block that `dump_asm` lists come back from the table it writes. -/
theorem loadStringA_dumped (hinst : acceptedInstance hInstance = true)
    (hids : ((dumpedTable t block).map RsrcStrings.id).Nodup)
    (hzero : ∀ rsrc ∈ dumpedTable t block, rsrc.id ≠ 0) {x : ℕ} (hx : x < t.rsrcStrings.num)
    {uID : UInt32} (hid : (t.rsrcStrings.id.getD x 0).toUInt32 = uID >>> 4 + 1)
    {strings : List (List UInt16)} (hblock : IsBlock strings (block (t.rsrcStrings.id.getD x 0)))
    {cchBufferMax : ℤ} (hmax : 1 ≤ cchBufferMax) :
    let s := strings.getD (uID &&& 0xf).toNat []
    loadStringA ((rsrcTable t).flatMap (assembled block)) hInstance uID mem cchBufferMax =
      some (min (s.length : ℤ) (cchBufferMax - 1), stored (s.take (cchBufferMax - 1).toNat) mem) := by
  rw [assembled_rsrcTable]
  exact loadStringA_found uID hinst hids hzero
    (List.mem_map.mpr ⟨x, List.mem_range.mpr hx, rfl⟩) hid hblock hmax

end Dumped

end Metroskrew.Dlls
