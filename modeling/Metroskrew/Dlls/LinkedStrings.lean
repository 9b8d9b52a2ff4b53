import Metroskrew.Dlls.User32
import Metroskrew.Library.Memory
import Metroskrew.Relink.LinkedSymbols
import Metroskrew.Relink.RsrcTree

/-! `LoadStringA` in the relinked program. The strings of the resource tree go through the dump, the
assembler and the linker, and come back by their IDs. -/

namespace Metroskrew.Dlls.LinkedStrings

open Metroskrew.Library Metroskrew.Library.Linking Metroskrew.Library.Memory
open Metroskrew.Library.Window Metroskrew.Patch.PatchMacros Metroskrew.Relink

/-- A byte of the program once the symbols have values. -/
def resolved (value : CString → ℕ) : OutByte → UInt8
  | .raw b => b
  | .sym symbol k => numberByte (value symbol) k

def programMemory (placed : List (Placement OutByte)) (value : CString → ℕ) (a : ℕ) : Option UInt8 :=
  (memory placed a).map (resolved value)

/-- The array of `struct rsrc_strings` at `a` up to the entry that ends it. `reach` is how much of
the memory behind a pointer is looked at. -/
def rsrcArray (mem : ℕ → Option UInt8) (reach : ℕ) : ℕ → ℕ → Option (List RsrcStrings)
  | 0, _ => none
  | n + 1, a => do
    let id ← readNumber mem 4 a
    if id = 0 then some [⟨0, []⟩]
    else
      let data ← readNumber mem 4 (a + 4)
      let rest ← rsrcArray mem reach n (a + 8)
      some (⟨id.toUInt32, readWords mem reach data⟩ :: rest)

def arrayBytes (value : ℕ → ℕ) (ids : List ℕ) : List UInt8 :=
  ids.flatMap (fun id => numberBytes 4 id ++ numberBytes 4 (value id)) ++ numberBytes 4 0

lemma readNumber_bytes {mem : ℕ → Option UInt8} {a v : ℕ} (rest : List UInt8)
    (h : ∀ j (hj : j < (numberBytes 4 v ++ rest).length),
      mem (a + j) = some (numberBytes 4 v ++ rest)[j]) (hv : v < 2 ^ 32) :
    readNumber mem 4 a = some v := by
  apply readNumber_eq
  · intro k hk
    have hlen := numberBytes_length 4 v
    rw [h k (by rw [List.length_append]; omega), List.getElem_append_left (by omega)]
    simp [numberBytes]
  · exact hv

lemma mem_rest {mem : ℕ → Option UInt8} {a n : ℕ} (front : List UInt8) {rest : List UInt8}
    (hn : front.length = n) (h : ∀ j (hj : j < (front ++ rest).length),
      mem (a + j) = some (front ++ rest)[j]) :
    ∀ j (hj : j < rest.length), mem (a + n + j) = some rest[j] := by
  intro j hj
  have := h (n + j) (by rw [List.length_append]; omega)
  rw [Nat.add_assoc, this, List.getElem_append_right (by omega)]
  simp [hn]

lemma rsrcArray_eq {mem : ℕ → Option UInt8} (reach : ℕ) (value : ℕ → ℕ) {ids : List ℕ} {a : ℕ}
    (h : ∀ j (hj : j < (arrayBytes value ids).length), mem (a + j) = some (arrayBytes value ids)[j])
    (hids : ∀ id ∈ ids, id ≠ 0 ∧ id < 2 ^ 32 ∧ value id < 2 ^ 32) :
    rsrcArray mem reach (ids.length + 1) a =
      some (ids.map (fun id => ⟨id.toUInt32, readWords mem reach (value id)⟩) ++ [⟨0, []⟩]) := by
  induction ids generalizing a with
  | nil =>
    have hend : readNumber mem 4 a = some 0 :=
      readNumber_bytes [] (by simpa [arrayBytes] using h) (by decide)
    simp [rsrcArray, hend]
  | cons id ids ih =>
    have hcons : arrayBytes value (id :: ids) =
        numberBytes 4 id ++ (numberBytes 4 (value id) ++ arrayBytes value ids) := by
      simp [arrayBytes]
    simp only [hcons] at h
    obtain ⟨hne, hlt, hval⟩ := hids id List.mem_cons_self
    have hid : readNumber mem 4 a = some id := readNumber_bytes _ h hlt
    have hsecond := mem_rest (numberBytes 4 id) (n := 4) rfl h
    have hdata : readNumber mem 4 (a + 4) = some (value id) := readNumber_bytes _ hsecond hval
    have hthird := mem_rest (numberBytes 4 (value id)) (n := 4) rfl hsecond
    have hrest := ih hthird fun id' hmem => hids id' (List.mem_cons_of_mem id hmem)
    rw [Nat.add_assoc] at hrest
    rw [List.length_cons, rsrcArray, hid, hdata, hrest]
    simp [hne]

variable {t : Tables} {win : Bool} {file : PeFile} {out : AsmDump} {uses : List Use}
  {text : List UInt8} {table : ℕ} {outside : CString → ℕ} {rest placed : List (Placement OutByte)}

lemma resolved_table (f : ℕ → UInt8) (value : CString → ℕ) (t : Tables) :
    (expand f (rsrcTable t).tail).map (resolved value) =
      arrayBytes (fun id => value (rsrcSymbol id))
        ((List.range t.rsrcStrings.num).map fun x => t.rsrcStrings.id.getD x 0) := by
  have hentry : ∀ id, (Directive.expand f (.rsrcEntry id)).map (resolved value) =
      numberBytes 4 id ++ numberBytes 4 (value (rsrcSymbol id)) := fun id => rfl
  have hend : (Directive.expand f .rsrcEnd).map (resolved value) = numberBytes 4 0 := rfl
  rw [arrayBytes, rsrcTable, List.flatMap_map]
  simp only [List.cons_append, List.nil_append, List.tail_cons, expand, List.flatMap_cons,
    List.flatMap_append, List.flatMap_map, List.map_append, List.map_flatMap, hentry,
    List.flatMap_nil, List.append_nil, hend]
  rfl

/-- The array that the program finds at `pe_rsrc_strings`. -/
lemma program_array (hl : Linkable t file uses text table rest) (h : Dumped t win file out)
    (hplaced : relink file.f out text table rest = some placed) (value : CString → ℕ) (reach : ℕ)
    {ids : List ℕ} (hids : (List.range t.rsrcStrings.num).map (fun x => t.rsrcStrings.id.getD x 0) = ids)
    (hbound : ∀ id ∈ ids, id ≠ 0 ∧ id < 2 ^ 32 ∧ value (rsrcSymbol id) < 2 ^ 32) :
    rsrcArray (programMemory placed value) reach (ids.length + 1) table =
      some (ids.map (fun id => ⟨id.toUInt32, readWords (programMemory placed value) reach
        (value (rsrcSymbol id))⟩) ++ [⟨0, []⟩]) := by
  have hbytes := resolved_table (byteAt file.f) value t
  rw [hids] at hbytes
  refine rsrcArray_eq reach (fun id => value (rsrcSymbol id)) (fun j hj => ?_) hbound
  have hlen : (arrayBytes (fun id => value (rsrcSymbol id)) ids).length =
      8 * t.rsrcStrings.num + 4 := by
    rw [← hbytes, List.length_map, ← tableBytes_eq (f := file.f) h hl, tableBytes_length h hl]
  rw [programMemory, hl.table_memory h hplaced (hlen ▸ hj), ← List.getElem?_map, hbytes,
    List.getElem?_eq_getElem hj]

lemma readTables_rsrc (h : readTables file = .ok t) :
    peReadRsrcStrings file = some t.rsrcStrings := by
  rw [readTables] at h
  cases he : peReadExportTable file <;> cases hi : peReadImportTable file <;>
    cases hr : peReadRsrcStrings file <;>
    simp [orFail, he, hi, hr, bind, Except.bind, pure, Except.pure] at h
  rw [← h]

/-- The block of an entry: sixteen strings, in the raw data of a section that the script places. -/
structure BlockIn (file : PeFile) (e : RsrcEntry) (strings : List (List UInt16)) :
    Prop where
  sixteen : strings.length = 16
  short : ∀ s ∈ strings, s.length < 0x8000
  size : e.size = (wordBytes (blockData strings)).length
  bound : file.baseAddr + e.rva < 2 ^ 32
  inside : ∃ x s, SectionAt file x s ∧ s.short ∈ ldSections ∧ s.short ≠ ascii "text" ∧
    Holds s (file.baseAddr + e.rva) ∧
    window (byteAt file.f) (s.offset + (file.baseAddr + e.rva - s.address)) e.size = wordBytes (blockData strings)

lemma BlockIn.size_ne {e : RsrcEntry} {strings : List (List UInt16)}
    (h : BlockIn file e strings) : e.size ≠ 0 := by
  have hlen := h.sixteen
  rw [h.size]
  cases strings with
  | nil => simp at hlen
  | cons s strings => simp [blockData_cons, wordBytes]

variable {es : List RsrcEntry} {strings : RsrcEntry → List (List UInt16)}

/-- The tables hold the entries of the tree. -/
structure Listed (t : Tables) (file : PeFile) (es : List RsrcEntry) : Prop where
  num : t.rsrcStrings.num = es.length
  id : t.rsrcStrings.id = es.map fun e => e.id
  addr : t.rsrcStrings.addr = es.map fun e => file.baseAddr + e.rva
  size : t.rsrcStrings.size = es.map fun e => e.size

lemma Listed.block (h : Listed t file es) {y : ℕ} {e : RsrcEntry} (he : es[y]? = some e) :
    BlockAt t y (file.baseAddr + e.rva) e.size := by
  constructor
  · rw [h.addr, List.getElem?_map, he, Option.map_some]
  · rw [h.size, List.getD_eq_getElem?_getD, List.getElem?_map, he, Option.map_some,
      Option.getD_some]

lemma Listed.entry (h : Listed t file es) {z b n : ℕ} (hb : BlockAt t z b n) :
    ∃ e, es[z]? = some e ∧ b = file.baseAddr + e.rva ∧ n = e.size := by
  obtain ⟨haddr, hsize⟩ := hb
  rw [h.addr, List.getElem?_map, Option.map_eq_some_iff] at haddr
  obtain ⟨e, he, rfl⟩ := haddr
  refine ⟨e, he, rfl, ?_⟩
  rw [← hsize, h.size, List.getD_eq_getElem?_getD, List.getElem?_map, he, Option.map_some,
    Option.getD_some]

/-- The symbol of a block is the address the tree gives it. -/
lemma Listed.symbol (h : Listed t file es) (hl : Linkable t file uses text table rest)
    (hd : Dumped t win file out) (hp : Placed t file)
    (hunique : ((linkedSymbols file.f out table).map Prod.fst).Nodup)
    (hblocks : ∀ e ∈ es, BlockIn file e (strings e)) {e : RsrcEntry} (he : e ∈ es) :
    symbolValue file.f out table outside (rsrcSymbol e.id) = file.baseAddr + e.rva := by
  obtain ⟨y, hy⟩ := List.mem_iff_getElem?.mp he
  have hblock := h.block hy
  obtain ⟨x, s, hsec, hld, htext, hold, -⟩ := (hblocks e he).inside
  obtain ⟨u, hx, rfl⟩ := hd.dump_of hsec
  obtain ⟨z, m, hz, _, hpick⟩ := hd.block_pick hp hx ⟨hold.1, hold.2.le⟩ hblock (hblocks e he).size_ne
  obtain ⟨e', he', _, rfl⟩ := h.entry hz
  have hm := (hblocks e' (List.mem_of_getElem? he')).size_ne
  obtain rfl := hp.block_unique hblock (hblocks e he).size_ne hz hm
  obtain rfl : e = e' := Option.some.inj (hy.symm.trans he')
  have hid : t.rsrcStrings.id.getD y 0 = e.id := by
    rw [h.id, List.getD_eq_getElem?_getD, List.getElem?_map, hy, Option.map_some, Option.getD_some]
  have hmem : (e.id, u.sec.offset + (file.baseAddr + e.rva - u.sec.address), e.size) ∈
      u.pickAt Directive.block? (file.baseAddr + e.rva) := by
    rw [hpick, hid]
    exact List.mem_cons_self
  rw [SectionDump.pickAt, if_pos hold.1, pick, List.mem_filterMap] at hmem
  obtain ⟨line, hline, hpicked⟩ := hmem
  split_ifs at hpicked with htag
  have hstands : line.2.stands = some (rsrcSymbol e.id) := by
    cases hl' : line.2 <;> simp only [hl', Directive.block?, reduceCtorEq, Option.some.injEq,
      Prod.mk.injEq] at hpicked
    obtain ⟨rfl, _, rfl⟩ := hpicked
    rw [Directive.stands, if_neg hm]
  rw [hl.symbolValue hd hunique outside hx hld htext hline hstands, htag]
  exact Nat.add_sub_cancel' hold.1

/-- The words of a block are in the program's memory, where the tree has them. -/
lemma Listed.words (h : Listed t file es) (hl : Linkable t file uses text table rest)
    (hd : Dumped t win file out) (hp : Placed t file)
    (hplaced : relink file.f out text table rest = some placed) (value : CString → ℕ)
    (hblocks : ∀ e ∈ es, BlockIn file e (strings e)) {e : RsrcEntry} (he : e ∈ es) {reach : ℕ}
    (hreach : (blockData (strings e)).length ≤ reach) :
    blockData (strings e) <+: readWords (programMemory placed value) reach (file.baseAddr + e.rva) := by
  obtain ⟨y, hy⟩ := List.mem_iff_getElem?.mp he
  have hblock := h.block hy
  have hb := hblocks e he
  obtain ⟨x, s, hsec, hld, htext, hold, hbytes⟩ := hb.inside
  have hfits := hl.fits x s hsec hld htext
  have hlo := hold.1
  have hraw := hfits.block_raw y _ _ hblock hb.size_ne ⟨hlo, hold.2.le⟩
  have hend := hfits.inside (.inr y) _ _ ⟨hblock, hb.size_ne⟩ hlo hold.2
  refine prefix_readWords (fun k hk => ?_) hreach
  have hk' : k < e.size := hb.size ▸ hk
  have haddr : file.baseAddr + e.rva + k = s.address + (file.baseAddr + e.rva - s.address + k) := by
    omega
  have hplain : ∀ z a, SlotAt t z a →
      ¬ Covers s (file.baseAddr + e.rva - s.address + k) a := by
    rintro z a hz ⟨hza, hak, hka⟩
    have := hp.items_apart (.inl z) (.inr y) a _ 4 _ (by simp) ⟨hz, rfl⟩ ⟨hblock, hb.size_ne⟩
    omega
  rw [programMemory, haddr, hl.section_memory hd hplaced hsec hld htext (by omega),
    sectionByte_plain hplain, fileByte, if_pos (by omega), Option.map_some, resolved]
  have hget := congrArg (·[k]?) hbytes
  simp only [window_getElem? _ hk', List.getElem?_eq_getElem hk, Option.some.injEq] at hget
  rw [← hget, Nat.add_assoc]

/-- The array in memory holds the block of an entry under its ID, and no other under that ID. -/
lemma blocks_nodup {es : List RsrcEntry} (data : ℕ → List UInt16) (hids : (es.map RsrcEntry.id).Nodup)
    (hlt : ∀ e ∈ es, e.id < 2 ^ 32) :
    (((es.map RsrcEntry.id).map fun id => (⟨id.toUInt32, data id⟩ : RsrcStrings)).map
      RsrcStrings.id).Nodup := by
  rw [List.map_map, List.map_map]
  refine List.Nodup.map_on ?_ (List.Nodup.of_map _ hids)
  intro a ha b hb hab
  have hid : a.id = b.id := by
    have := congrArg UInt32.toNat hab
    simpa [UInt32.toNat_ofNat_of_lt' (hlt a ha), UInt32.toNat_ofNat_of_lt' (hlt b hb)] using this
  exact List.inj_on_of_nodup_map hids ha hb hid

/-- Every string of the resource tree is what `LoadStringA` returns for its ID in the relinked
program, cut to the buffer; where the tree has no block for an ID, nothing is stored. -/
theorem loadStringA_relinked (win : Bool) (file : PeFile) (t : Tables) (out : AsmDump)
    (uses : List Use) (text : List UInt8) (table : ℕ) (rest placed : List (Placement OutByte))
    (outside : CString → ℕ) (root named ids x : ℕ) (es : List RsrcEntry)
    (strings : RsrcEntry → List (List UInt16)) (ht : readTables file = .ok t)
    (hout : dumpAsm win file = .ok out) (hl : Linkable t file uses text table rest)
    (hplaced : relink file.f out text table rest = some placed) (hp : Placed t file)
    (hunique : ((linkedSymbols file.f out table).map Prod.fst).Nodup)
    (hroot : RsrcRoot file root named ids) (hs : StringTable file root named ids x es)
    (hids : (es.map RsrcEntry.id).Nodup) (hzero : ∀ e ∈ es, e.id ≠ 0)
    (hblocks : ∀ e ∈ es, BlockIn file e (strings e)) (hInstance uID : UInt32)
    (lpBuffer : ℕ → UInt8) (cchBufferMax : ℤ) (hinst : acceptedInstance hInstance = true)
    (hmax : 1 ≤ cchBufferMax) (reach : ℕ) (hreach : ∀ e ∈ es, (blockData (strings e)).length ≤ reach) :
    let value := symbolValue file.f out table outside
    ∃ array, rsrcArray (programMemory placed value) reach (es.length + 1)
        (value (ascii "pe_rsrc_strings")) = some array ∧
      (∀ e ∈ es, e.id = (uID >>> 4 + 1).toNat →
        let s := (strings e).getD (uID &&& 0xf).toNat []
        loadStringA array hInstance uID lpBuffer cchBufferMax =
          some (min (s.length : ℤ) (cchBufferMax - 1),
            stored (s.take (cchBufferMax - 1).toNat) lpBuffer)) ∧
      ((∀ e ∈ es, e.id ≠ (uID >>> 4 + 1).toNat) →
        loadStringA array hInstance uID lpBuffer cchBufferMax = some (0, lpBuffer)) := by
  intro value
  have hd := dumpAsm_dumped ht hout
  have hlisted : Listed t file es := by
    have hrsrc := (readTables_rsrc ht).symm.trans (hroot.strings hs)
    rw [Option.some.injEq] at hrsrc
    constructor <;> rw [hrsrc]
  have hlt : ∀ e ∈ es, e.id < 2 ^ 32 := by
    intro e he
    obtain ⟨y, hy, rfl⟩ := List.getElem_of_mem he
    obtain ⟨skipped, _, hentries⟩ := hs.entries
    exact (hentries y hy).id ▸ readU32_lt _ _
  have hback : ∀ e ∈ es, e.id.toUInt32.toNat = e.id := fun e he =>
    UInt32.toNat_ofNat_of_lt' (hlt e he)
  have hsymbol : ∀ e ∈ es, value (rsrcSymbol e.id) = file.baseAddr + e.rva :=
    fun e he => hlisted.symbol hl hd hp hunique hblocks he
  have hlist : (List.range t.rsrcStrings.num).map (fun y => t.rsrcStrings.id.getD y 0) =
      es.map RsrcEntry.id := by
    apply List.ext_getElem (by simp [hlisted.num])
    intro y h₁ h₂
    rw [List.length_map] at h₂
    simp [hlisted.id, List.getD_eq_getElem?_getD, List.getElem?_eq_getElem h₂]
  have harray := program_array hl hd hplaced value reach hlist (by
    intro id hid
    obtain ⟨e, he, rfl⟩ := List.mem_map.mp hid
    exact ⟨hzero e he, hlt e he, (hsymbol e he).symm ▸ (hblocks e he).bound⟩)
  rw [List.length_map, ← hl.table_symbol hd hunique outside] at harray
  refine ⟨_, harray, ?_, ?_⟩
  · intro e he hid
    refine loadStringA_found uID hinst (blocks_nodup _ hids hlt) ?_
      (List.mem_map.mpr ⟨e.id, List.mem_map_of_mem he, rfl⟩) ?_ ?_ hmax
    · intro rsrc hrsrc hz
      rw [List.map_map] at hrsrc
      obtain ⟨e', he', rfl⟩ := List.mem_map.mp hrsrc
      have := congrArg UInt32.toNat hz
      exact hzero e' he' ((hback e' he').symm.trans this)
    · apply UInt32.toNat.inj
      rw [hback e he, hid]
    · have hb := hblocks e he
      refine ⟨hb.sixteen, hb.short, ?_⟩
      simp only [hsymbol e he]
      exact hlisted.words hl hd hp hplaced value hblocks he (hreach e he)
  · intro hnone
    refine loadStringA_missing uID cchBufferMax hinst rfl ?_
    intro rsrc hrsrc
    rw [List.map_map] at hrsrc
    obtain ⟨e, he, rfl⟩ := List.mem_map.mp hrsrc
    refine ⟨fun hz => hzero e he ((hback e he).symm.trans (congrArg UInt32.toNat hz)), fun heq => ?_⟩
    exact hnone e he ((hback e he).symm.trans (congrArg UInt32.toNat heq))

lemma window_byteAt {f : List UInt8} {off n : ℕ} (h : off + n ≤ f.length) :
    window (byteAt f) off n = (f.drop off).take n := by
  apply List.ext_getElem?
  intro k
  by_cases hk : k < n
  · rw [window_getElem? _ hk, List.getElem?_take_of_lt hk, List.getElem?_drop,
      List.getElem?_eq_getElem (by omega), byteAt, List.getD_eq_getElem?_getD,
      List.getElem?_eq_getElem (by omega), Option.getD_some]
  · rw [List.getElem?_eq_none (by rw [window_length]; omega),
      List.getElem?_eq_none (by rw [List.length_take]; omega)]

section Startup

open Metroskrew.Patch.Hooks

def startupEntries : List RsrcEntry := [⟨7, 0x5088, 36⟩, ⟨9, 0x50ac, 36⟩]

/-- The block of entry 9 has its string at index 3. -/
def startupTexts (e : RsrcEntry) : List (List UInt16) :=
  if e.id = 7 then [0x48, 0x69] :: List.replicate 15 []
  else List.replicate 3 [] ++ [0x6f, 0x6b] :: List.replicate 12 []

/-- The strings of the image and what is in front of them in the headers. -/
lemma startup_rsrc : (startupFile.f.drop 0x33d).take startupStrings.length = startupStrings ∧
    startupFile.f.length = 0x461 ∧ peGetDatadir startupFile 2 = some (0x5000, 0xd0) ∧
    (rawAddress startupFile 4 = 0x5000 ∧ rawSize startupFile 4 = 0xd4 ∧ rawOffset startupFile 4 = 0x33d) ∧
    ∀ j < 4, rawAddress startupFile j + rawSize startupFile j ≤ 0x5000 := by
  decide +kernel

lemma startup_word {k : ℕ} (hk : k + 4 ≤ 0xd4) :
    readU32 startupFile.f (0x33d + k) = readU32 startupStrings k := by
  have hlen : startupStrings.length = 0xd4 := by decide +kernel
  rw [← readU32_window startupFile.f (hlen ▸ hk), startup_rsrc.1]

lemma startup_level {k ids : ℕ} (hk : k + 0x10 + ids * 8 ≤ 0xd4)
    (hnums : readU16 startupStrings (k + 0xc) = 0 ∧ readU16 startupStrings (k + 0xe) = ids) :
    DirAt startupFile (0x33d + k) 0 ids := by
  have hlen : startupStrings.length = 0xd4 := by decide +kernel
  have hhalf : ∀ i, i + 2 ≤ 0xd4 → readU16 startupFile.f (0x33d + i) = readU16 startupStrings i := by
    intro i hi
    rw [← readU16_window startupFile.f (hlen ▸ hi), startup_rsrc.1]
  refine ⟨?_, ?_, ?_⟩
  · rw [startup_rsrc.2.1]
    omega
  · rw [Nat.add_assoc, hhalf (k + 0xc) (by omega), hnums.1]
  · rw [Nat.add_assoc, hhalf (k + 0xe) (by omega), hnums.2]

lemma startup_root : RsrcRoot startupFile 0x33d 0 1 where
  datadir_num := by decide
  table := ⟨by decide, by rw [startup_rsrc.2.1]; decide⟩
  directory := by
    obtain ⟨-, -, hdir, ⟨haddress, hsize, hoffset⟩, hbelow⟩ := startup_rsrc
    refine ⟨0x5000, 0xd0, 4, hdir, by decide, by decide,
      ⟨⟨by decide, haddress.le, by rw [haddress, hsize]; decide⟩, ?_⟩,
      by rw [filePos, haddress, hoffset]⟩
    intro j hj hwithin
    have hhi := hwithin.hi
    have := hbelow j hj
    omega
  level := startup_level (k := 0) (by decide) (by decide)

lemma startup_strings : StringTable startupFile 0x33d 0 1 0 startupEntries where
  lt := by decide
  type := by
    rw [show idEntry 0x33d 0 0 = 0x33d + 0x10 from rfl, startup_word (by decide)]
    decide
  only := by omega
  subdirectory := by
    rw [entryDir, show idEntry 0x33d 0 0 + 4 = 0x33d + 0x14 from rfl, startup_word (by decide)]
    decide
  entries := by
    rw [entryOff, show idEntry 0x33d 0 0 + 4 = 0x33d + 0x14 from rfl, startup_word (by decide),
      show readU32 startupStrings 0x14 % 2 ^ 31 = 0x18 by decide]
    refine ⟨0, startup_level (k := 0x18) (by decide) (by decide), ?_⟩
    intro y hy
    have hy' : y < 2 := hy
    interval_cases y
    · exact RsrcEntry.at_tree (e := ⟨7, 0x5088, 36⟩) startupStrings 0x28 0x38 0x68 startup_rsrc.1
        (by decide +kernel) (by decide) (by decide) (by decide) (by decide) (by decide)
    · exact RsrcEntry.at_tree (e := ⟨9, 0x50ac, 36⟩) startupStrings 0x30 0x50 0x78 startup_rsrc.1
        (by decide +kernel) (by decide) (by decide) (by decide) (by decide) (by decide)

lemma startup_block {e : RsrcEntry} (he : e ∈ startupEntries) : BlockIn startupFile e (startupTexts e) := by
  have hrsrc := startup_section (show 4 < 8 by decide)
  have hlen := startup_rsrc.2.1
  have hbytes : (startupFile.f.drop 0x3c5).take 36 = wordBytes (blockData (startupTexts ⟨7, 0x5088, 36⟩)) ∧
      (startupFile.f.drop 0x3e9).take 36 = wordBytes (blockData (startupTexts ⟨9, 0x50ac, 36⟩)) := by
    decide +kernel
  rcases List.mem_cons.mp he with rfl | he
  · exact ⟨by decide, by decide, by decide, by decide, 4, _, hrsrc, by decide, by decide,
      ⟨by decide, by decide⟩, (window_byteAt (by rw [hlen]; decide)).trans hbytes.1⟩
  · rw [List.mem_singleton.mp he]
    exact ⟨by decide, by decide, by decide, by decide, 4, _, hrsrc, by decide, by decide,
      ⟨by decide, by decide⟩, (window_byteAt (by rw [hlen]; decide)).trans hbytes.2⟩

/-- String 3 of the second block. -/
theorem loadStringA_relinked_startup :
    ∃ text placed array, relink startupImage startupDump text 0x420000 startupRest = some placed ∧
      rsrcArray (programMemory placed (symbolValue startupImage startupDump 0x420000 fun _ => 0)) 18 3
        0x420000 = some array ∧
      loadStringA array 0x400000 0x83 (fun _ => 0xcc) 8 =
        some (2, stored [0x6f, 0x6b] fun _ => 0xcc) := by
  obtain ⟨text, htext⟩ := startup_text_made
  obtain ⟨placed, hplaced⟩ := startup_links text
  have hl := startup_linkable htext
  have hunique := startup_names_read.2.2.2.2
  obtain ⟨array, harray, hfound, -⟩ := loadStringA_relinked false startupFile startupTables startupDump
    startupUses text 0x420000 startupRest placed (fun _ => 0) 0x33d 0 1 0 startupEntries startupTexts
    startup_read.1 startup_read.2.1 hl hplaced startup_placed hunique startup_root startup_strings
    (by decide) (by decide) (fun e he => startup_block he) 0x400000 0x83 (fun _ => 0xcc) 8 (by decide)
    (by decide) 18 (by decide)
  rw [hl.table_symbol (dumpAsm_dumped startup_read.1 startup_read.2.1) hunique] at harray
  exact ⟨text, placed, array, hplaced, harray, hfound ⟨9, 0x50ac, 36⟩ (by decide) (by decide)⟩

end Startup

end Metroskrew.Dlls.LinkedStrings
