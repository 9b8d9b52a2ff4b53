import Metroskrew.Relink.Image
import Metroskrew.Relink.RawData

/-! `pe_read_rsrc_strings` with the memory it writes to, on the directory trees it is meant for. -/

namespace Metroskrew.Relink

structure RsrcMemory where
  out : PeRsrcString
  rsrcId : List ℕ
  rsrcAddr : List ℕ
  rsrcSize : List ℕ
  deriving Repr, DecidableEq

variable (file : PeFile)

def rsrcEntries (dirOff entryOffBase : ℕ) : ℕ → ℕ → RsrcMemory → Bool × RsrcMemory
  | 0, _, mem => (true, mem)
  | n + 1, x, mem =>
    match peReadRsrcString file dirOff (entryOffBase + x * 8) with
    | none => (false, mem)
    | some (id, addr, size) =>
      rsrcEntries dirOff entryOffBase n (x + 1) { mem with
        rsrcId := mem.rsrcId.set x id
        rsrcAddr := mem.rsrcAddr.set x addr
        rsrcSize := mem.rsrcSize.set x size }

/-- Whether the call succeeds, and `*out` after it; `garbage` is what `malloc` hands over. -/
def peReadRsrcStringsInto (garbage : ℕ → ℕ → ℕ) (out : PeRsrcString) : Bool × PeRsrcString :=
  match peGetRsrcDir file 6 with
  | none => (false, out)
  | some (off, dirOff) =>
    if off = 0 then (true, { num := 0, id := [], addr := [], size := [] })
    else
      match peDirReadHeader file off with
      | none => (false, out)
      | some header =>
        let mem := {
          out := out
          rsrcId := (List.range header.numId).map (garbage 0)
          rsrcAddr := (List.range header.numId).map (garbage 1)
          rsrcSize := (List.range header.numId).map (garbage 2) }
        match rsrcEntries file dirOff (off + 0x10 + header.numName * 8) header.numId 0 mem with
        | (false, mem) => (false, mem.out)
        | (true, mem) => (true, {
            num := header.numId
            id := mem.rsrcId
            addr := mem.rsrcAddr
            size := mem.rsrcSize })

structure DirAt (pos named ids : ℕ) : Prop where
  inside : pos + 0x10 + (named + ids) * 8 ≤ file.f.length
  num_name : readU16 file.f (pos + 0xc) = named
  num_id : readU16 file.f (pos + 0xe) = ids

def idEntry (pos named x : ℕ) : ℕ := pos + 0x10 + named * 8 + x * 8

def entryOff (pos : ℕ) : ℕ := readU32 file.f (pos + 4) % 2 ^ 31

def entryDir (pos : ℕ) : Bool := (readU32 file.f (pos + 4)).testBit 31

structure RsrcEntry where
  id : ℕ
  rva : ℕ
  size : ℕ
  deriving Repr, DecidableEq

/-- The entry at `pos` leads to a directory with nothing but a data entry, under 0x409. -/
structure RsrcEntry.At (root pos : ℕ) (e : RsrcEntry) : Prop where
  id : readU32 file.f pos = e.id
  subdirectory : entryDir file pos = true
  level : DirAt file (root + entryOff file pos) 0 1
  language : readU32 file.f (root + entryOff file pos + 0x10) = 0x409
  leaf : entryDir file (root + entryOff file pos + 0x10) = false
  data : root + entryOff file (root + entryOff file pos + 0x10) + 0x10 ≤ file.f.length
  rva : readU32 file.f (root + entryOff file (root + entryOff file pos + 0x10)) = e.rva
  size : readU32 file.f (root + entryOff file (root + entryOff file pos + 0x10) + 4) = e.size

structure RsrcRoot (root named ids : ℕ) : Prop where
  datadir_num : 2 < file.datadirNum
  table : SectionTable file
  directory : ∃ addr size k, peGetDatadir file 2 = some (addr, size) ∧ addr ≠ 0 ∧ size ≠ 0 ∧
    Home file k addr ∧ root = filePos file k addr
  level : DirAt file root named ids

/-- ID entry `x` of the root, and no other, has type 6, and leads to a directory of these entries. -/
structure StringTable (root named ids x : ℕ) (es : List RsrcEntry) : Prop where
  lt : x < ids
  type : readU32 file.f (idEntry root named x) = 6
  only : ∀ y < ids, readU32 file.f (idEntry root named y) = 6 → y = x
  subdirectory : entryDir file (idEntry root named x) = true
  entries : ∃ skipped, DirAt file (root + entryOff file (idEntry root named x)) skipped es.length ∧
    ∀ y (h : y < es.length),
      es[y].At file root (idEntry (root + entryOff file (idEntry root named x)) skipped y)

variable {file}

/-- An entry whose words stand in the bytes of the tree; `pos`, `dir` and `data` are relative to the root. -/
lemma RsrcEntry.at_tree {root : ℕ} {e : RsrcEntry} (tree : List UInt8) (pos dir data : ℕ)
    (htree : (file.f.drop root).take tree.length = tree)
    (hin : pos + 8 ≤ tree.length ∧ dir + 0x18 ≤ tree.length ∧ data + 0x10 ≤ tree.length)
    (hdir : dir < 2 ^ 31) (hdata : data < 2 ^ 31)
    (hentry : readU32 tree pos = e.id ∧ readU32 tree (pos + 4) = 2 ^ 31 + dir)
    (hlevel : readU16 tree (dir + 0xc) = 0 ∧ readU16 tree (dir + 0xe) = 1 ∧
      readU32 tree (dir + 0x10) = 0x409 ∧ readU32 tree (dir + 0x14) = data)
    (hleaf : readU32 tree data = e.rva ∧ readU32 tree (data + 4) = e.size) :
    e.At file root (root + pos) := by
  obtain ⟨hpos, hdirIn, hdataIn⟩ := hin
  have hlen : root + tree.length ≤ file.f.length := by
    have := congrArg List.length htree
    rw [List.length_take, List.length_drop] at this
    omega
  have hword : ∀ k, k + 4 ≤ tree.length → readU32 file.f (root + k) = readU32 tree k := by
    intro k hk
    rw [← readU32_window file.f hk, htree]
  have hhalf : ∀ k, k + 2 ≤ tree.length → readU16 file.f (root + k) = readU16 tree k := by
    intro k hk
    rw [← readU16_window file.f hk, htree]
  have hsub : readU32 file.f (root + pos + 4) = 2 ^ 31 + dir := by
    rw [Nat.add_assoc, hword (pos + 4) (by omega), hentry.2]
  have hlang : readU32 file.f (root + dir + 0x10 + 4) = data := by
    rw [Nat.add_assoc, Nat.add_assoc, hword (dir + 0x14) (by omega), hlevel.2.2.2]
  have hdirOff : entryOff file (root + pos) = dir := by
    rw [entryOff, hsub, Nat.add_mod_left, Nat.mod_eq_of_lt hdir]
  have hdataOff : entryOff file (root + dir + 0x10) = data := by
    rw [entryOff, hlang, Nat.mod_eq_of_lt hdata]
  constructor
  · rw [hword pos (by omega), hentry.1]
  · rw [entryDir, hsub, Nat.testBit_two_pow_add_eq, Nat.testBit_lt_two_pow hdir]
    rfl
  all_goals rw [hdirOff]
  · refine ⟨by omega, ?_, ?_⟩
    · rw [Nat.add_assoc, hhalf (dir + 0xc) (by omega), hlevel.1]
    · rw [Nat.add_assoc, hhalf (dir + 0xe) (by omega), hlevel.2.1]
  · rw [Nat.add_assoc, hword (dir + 0x10) (by omega), hlevel.2.2.1]
  · rw [entryDir, hlang, Nat.testBit_lt_two_pow hdata]
  all_goals rw [hdataOff]
  · omega
  · rw [hword data (by omega), hleaf.1]
  · rw [Nat.add_assoc, hword (data + 4) (by omega), hleaf.2]

lemma set_take {l r : List ℕ} {x a : ℕ} (h : x < l.length) :
    (l.set x a).take (x + 1) ++ r = l.take x ++ a :: r := by
  rw [List.set_eq_take_append_cons_drop, if_pos h, List.take_append, List.length_take,
    Nat.min_eq_left h.le, List.take_of_length_le (by simp), Nat.add_sub_cancel_left]
  simp

lemma rsrcEntries_out (file : PeFile) (dirOff entryOffBase n x : ℕ) (mem : RsrcMemory) :
    (rsrcEntries file dirOff entryOffBase n x mem).2.out = mem.out := by
  induction n generalizing x mem with
  | zero => rfl
  | succ n ih =>
    rw [rsrcEntries]
    cases peReadRsrcString file dirOff (entryOffBase + x * 8) with
    | none => rfl
    | some e => exact ih _ _

lemma rsrcEntries_none {dirOff entryOffBase n x : ℕ} (mem : RsrcMemory)
    (h : (List.range' x n).mapM (fun y => peReadRsrcString file dirOff (entryOffBase + y * 8)) =
      none) : (rsrcEntries file dirOff entryOffBase n x mem).1 = false := by
  induction n generalizing x mem with
  | zero => cases h
  | succ n ih =>
    rw [List.range'_succ, List.mapM_cons] at h
    rw [rsrcEntries]
    cases he : peReadRsrcString file dirOff (entryOffBase + x * 8) with
    | none => rfl
    | some e =>
      rw [he] at h
      apply ih _
      cases hes : (List.range' (x + 1) n).mapM fun y =>
          peReadRsrcString file dirOff (entryOffBase + y * 8) with
      | none => rfl
      | some es =>
        rw [hes] at h
        cases h

lemma rsrcEntries_some {dirOff entryOffBase n x : ℕ} {mem : RsrcMemory} {es : List (ℕ × ℕ × ℕ)}
    (hid : mem.rsrcId.length = x + n) (haddr : mem.rsrcAddr.length = x + n)
    (hsize : mem.rsrcSize.length = x + n)
    (h : (List.range' x n).mapM (fun y => peReadRsrcString file dirOff (entryOffBase + y * 8)) =
      some es) :
    rsrcEntries file dirOff entryOffBase n x mem = (true, {
      out := mem.out
      rsrcId := mem.rsrcId.take x ++ es.map fun e => e.1
      rsrcAddr := mem.rsrcAddr.take x ++ es.map fun e => e.2.1
      rsrcSize := mem.rsrcSize.take x ++ es.map fun e => e.2.2 }) := by
  induction n generalizing x mem es with
  | zero =>
    cases h
    rw [Nat.add_zero] at hid haddr hsize
    rw [rsrcEntries, List.take_of_length_le hid.le, List.take_of_length_le haddr.le,
      List.take_of_length_le hsize.le]
    simp
  | succ n ih =>
    rw [List.range'_succ, List.mapM_cons] at h
    rw [rsrcEntries]
    cases he : peReadRsrcString file dirOff (entryOffBase + x * 8) with
    | none =>
      rw [he] at h
      cases h
    | some e =>
      rw [he] at h
      cases hes : (List.range' (x + 1) n).mapM fun y =>
          peReadRsrcString file dirOff (entryOffBase + y * 8) with
      | none =>
        rw [hes] at h
        cases h
      | some es' =>
        rw [hes] at h
        cases h
        simp only
        rw [ih (by simp [hid]; omega) (by simp [haddr]; omega) (by simp [hsize]; omega) hes]
        simp only [List.map_cons]
        rw [set_take (by omega), set_take (by omega), set_take (by omega)]

/-- With the memory left out, the call is `peReadRsrcStrings`. -/
lemma peReadRsrcStringsInto_eq (garbage : ℕ → ℕ → ℕ) (out : PeRsrcString) :
    peReadRsrcStringsInto file garbage out =
      match peReadRsrcStrings file with
      | some out' => (true, out')
      | none => (false, out) := by
  rw [peReadRsrcStringsInto, peReadRsrcStrings]
  cases peGetRsrcDir file 6 with
  | none => rfl
  | some dir =>
    obtain ⟨off, dirOff⟩ := dir
    simp only [bind, Option.bind_some]
    split_ifs with hoff
    · rfl
    · cases peDirReadHeader file off with
      | none => rfl
      | some header =>
        simp only [Option.bind_some]
        generalize hmem : RsrcMemory.mk out _ _ _ = mem
        have hout : mem.out = out := by rw [← hmem]
        rw [List.range_eq_range']
        cases hes : (List.range' 0 header.numId).mapM fun x =>
            peReadRsrcString file dirOff (off + 0x10 + header.numName * 8 + x * 8) with
        | none =>
          have hfalse := rsrcEntries_none mem hes
          have hkeep := rsrcEntries_out file dirOff (off + 0x10 + header.numName * 8) header.numId 0 mem
          generalize rsrcEntries file dirOff (off + 0x10 + header.numName * 8) header.numId 0 mem = r
            at hfalse hkeep ⊢
          obtain ⟨ok, mem'⟩ := r
          simp only at hfalse hkeep
          subst hfalse
          exact congrArg (Prod.mk false) (hkeep.trans hout)
        | some es =>
          rw [rsrcEntries_some (by simp [← hmem]) (by simp [← hmem]) (by simp [← hmem]) hes]
          rfl

lemma DirAt.read {pos named ids : ℕ} (h : DirAt file pos named ids) :
    peDirReadHeader file pos = some ⟨named, ids⟩ := by
  have hin := h.inside
  rw [peDirReadHeader, fread, if_neg (by omega)]
  simp only [bind, Option.bind_some]
  rw [readU16_window _ (by decide), readU16_window _ (by decide), h.num_name, h.num_id]

lemma peDirReadEntry_eq {pos : ℕ} (h : pos + 8 ≤ file.f.length) :
    peDirReadEntry file pos = some ⟨readU32 file.f pos, entryOff file pos, entryDir file pos⟩ := by
  rw [peDirReadEntry, fread, if_neg (by omega)]
  simp only [bind, Option.bind_some]
  rw [readU32_window _ (by decide), readU32_window _ (by decide)]
  rfl

lemma DirAt.entry_in {pos named ids x : ℕ} (h : DirAt file pos named ids) (hx : x < ids) :
    idEntry pos named x + 8 ≤ file.f.length := by
  have := h.inside
  unfold idEntry
  omega

lemma peFindRsrcType_none {type dirOff pos n : ℕ} (hin : pos + n * 8 ≤ file.f.length)
    (hother : ∀ y < n, readU32 file.f (pos + y * 8) ≠ type) :
    peFindRsrcType file type dirOff n pos = some 0 := by
  induction n generalizing pos with
  | zero => rfl
  | succ n ih =>
    have hne : readU32 file.f pos ≠ type := by simpa using hother 0 (Nat.succ_pos n)
    rw [peFindRsrcType, peDirReadEntry_eq (by omega)]
    simp only [bind, Option.bind_some, if_pos hne]
    apply ih (by omega)
    intro y hy
    have := hother (y + 1) (by omega)
    rwa [show pos + (y + 1) * 8 = pos + 8 + y * 8 by omega] at this

lemma peFindRsrcType_at {type dirOff pos n x : ℕ} (hin : pos + n * 8 ≤ file.f.length) (hx : x < n)
    (htype : readU32 file.f (pos + x * 8) = type)
    (hother : ∀ y < x, readU32 file.f (pos + y * 8) ≠ type)
    (hdir : entryDir file (pos + x * 8) = true) :
    peFindRsrcType file type dirOff n pos = some (dirOff + entryOff file (pos + x * 8)) := by
  induction n generalizing pos x with
  | zero => omega
  | succ n ih =>
    rw [peFindRsrcType, peDirReadEntry_eq (by omega)]
    simp only [bind, Option.bind_some]
    cases x with
    | zero =>
      rw [Nat.zero_mul, Nat.add_zero] at htype hdir ⊢
      rw [if_neg (not_not.mpr htype), hdir]
      rfl
    | succ x =>
      have hne : readU32 file.f pos ≠ type := by simpa using hother 0 (Nat.succ_pos x)
      have hshift : ∀ y, pos + (y + 1) * 8 = pos + 8 + y * 8 := by
        intro y
        omega
      rw [hshift] at htype hdir ⊢
      rw [if_pos hne]
      refine ih (by omega) (by omega) htype (fun y hy => ?_) hdir
      rw [← hshift]
      exact hother (y + 1) (by omega)

lemma RsrcEntry.At.read {root pos : ℕ} {e : RsrcEntry} (h : e.At file root pos)
    (hin : pos + 8 ≤ file.f.length) :
    peReadRsrcString file root pos = some (e.id, file.baseAddr + e.rva, e.size) := by
  have hlevel := h.level.inside
  have hdata := h.data
  rw [peReadRsrcString, peDirReadEntry_eq hin]
  simp only [bind, Option.bind_some, h.subdirectory, h.level.read, guard_true, pure]
  rw [peDirReadEntry_eq (by omega)]
  simp only [Option.bind_some, h.leaf, h.language, guard_true, pure]
  rw [fread, if_neg (by omega)]
  simp only [Option.bind_some]
  rw [readU32_window _ (by decide), readU32_window _ (by decide), Nat.add_zero, h.rva, h.size, h.id]

variable {root named ids x : ℕ} {es : List RsrcEntry}

lemma RsrcRoot.rsrcDir (h : RsrcRoot file root named ids) (type : ℕ) :
    peGetRsrcDir file type =
      (peFindRsrcType file type root ids (idEntry root named 0)).map fun off => (off, root) := by
  obtain ⟨addr, size, k, hdir, haddr, hsize, hhome, hroot⟩ := h.directory
  have hoff : peFindFileOffset file addr = some root :=
    peFindFileOffset_iff.mpr ⟨h.table, k, hhome, hroot⟩
  rw [peGetRsrcDir, hdir]
  simp only [bind, Option.bind_some, if_neg (show ¬ (addr = 0 ∨ size = 0) by tauto), hoff,
    h.level.read, idEntry, Nat.zero_mul, Nat.add_zero]
  cases peFindRsrcType file type root ids (root + 0x10 + named * 8) with
  | none => rfl
  | some off => rfl

lemma RsrcRoot.find (h : RsrcRoot file root named ids) (hs : StringTable file root named ids x es) :
    peGetRsrcDir file 6 = some (root + entryOff file (idEntry root named x), root) := by
  have hin := h.level.inside
  have hx := hs.lt
  have hpos : ∀ y, idEntry root named 0 + y * 8 = idEntry root named y := by
    intro y
    simp [idEntry]
  rw [h.rsrcDir, peFindRsrcType_at (x := x)]
  · rw [hpos]
    rfl
  · unfold idEntry
    omega
  · exact hx
  · rw [hpos]
    exact hs.type
  · intro y hy heq
    rw [hpos] at heq
    exact hy.ne (hs.only y (hy.trans hx) heq)
  · rw [hpos]
    exact hs.subdirectory

/-- The string table is not the root, whose position the code takes for no table at all. -/
lemma RsrcRoot.off_ne (h : RsrcRoot file root named ids)
    (hs : StringTable file root named ids x es) :
    root + entryOff file (idEntry root named x) ≠ 0 := by
  intro hzero
  obtain ⟨skipped, hdir, hentries⟩ := hs.entries
  obtain ⟨rfl, hself⟩ := Nat.add_eq_zero_iff.mp hzero
  rw [hself] at hdir hentries
  have hnamed : skipped = named := hdir.num_name.symm.trans h.level.num_name
  have hids : es.length = ids := hdir.num_id.symm.trans h.level.num_id
  have hx : x < es.length := hids ▸ hs.lt
  have hat := hentries x hx
  rw [hnamed] at hat
  have hlevel := hat.level
  have hlanguage := hat.language
  rw [Nat.add_zero, hself] at hlevel hlanguage
  have hnone : named = 0 := h.level.num_name.symm.trans hlevel.num_name
  have hone : ids = 1 := h.level.num_id.symm.trans hlevel.num_id
  have hlt := hs.lt
  obtain rfl : x = 0 := by omega
  have htype := hs.type
  rw [hnone, idEntry] at htype
  rw [htype] at hlanguage
  cases hlanguage

lemma mapM_range' {α β : Type} {f : ℕ → Option β} {g : α → β} (xs : List α) (n : ℕ)
    (h : ∀ y (hy : y < xs.length), f (n + y) = some (g xs[y])) :
    (List.range' n xs.length).mapM f = some (xs.map g) := by
  induction xs generalizing n with
  | nil => rfl
  | cons a xs ih =>
    have hhead : f n = some (g a) := h 0 (Nat.succ_pos _)
    have htail := ih (n + 1) fun y hy => by
      have := h (y + 1) (by simpa using hy)
      rwa [show n + (y + 1) = n + 1 + y by omega] at this
    rw [List.length_cons, List.range'_succ, List.mapM_cons, hhead, htail]
    rfl

lemma RsrcRoot.strings (h : RsrcRoot file root named ids)
    (hs : StringTable file root named ids x es) :
    peReadRsrcStrings file = some {
      num := es.length
      id := es.map fun e => e.id
      addr := es.map fun e => file.baseAddr + e.rva
      size := es.map fun e => e.size } := by
  have hne := h.off_ne hs
  have hfind := h.find hs
  obtain ⟨skipped, hdir, hentries⟩ := hs.entries
  generalize root + entryOff file (idEntry root named x) = pos at hne hfind hdir hentries
  have hread : (List.range es.length).mapM
      (fun y => peReadRsrcString file root (pos + 0x10 + skipped * 8 + y * 8)) =
        some (es.map fun e => (e.id, file.baseAddr + e.rva, e.size)) := by
    rw [List.range_eq_range']
    apply mapM_range'
    intro y hy
    rw [Nat.zero_add]
    exact (hentries y hy).read (hdir.entry_in hy)
  rw [peReadRsrcStrings, hfind]
  simp only [bind, Option.bind_some, if_neg hne, hdir.read]
  rw [hread]
  simp

lemma RsrcRoot.no_strings (h : RsrcRoot file root named ids)
    (hno : ∀ y < ids, readU32 file.f (idEntry root named y) ≠ 6) :
    peReadRsrcStrings file = some { num := 0, id := [], addr := [], size := [] } := by
  have hin := h.level.inside
  rw [peReadRsrcStrings, h.rsrcDir, peFindRsrcType_none]
  · rfl
  · unfold idEntry
    omega
  · intro y hy
    simpa [idEntry] using hno y hy

/-- Every string block comes back in order; no type 6, no strings; and a failure leaves `*out`
alone. -/
theorem rsrc_strings_decoded (file : PeFile) (garbage : ℕ → ℕ → ℕ) (out : PeRsrcString) :
    (∀ (root named ids x : ℕ) (es : List RsrcEntry),
      RsrcRoot file root named ids → StringTable file root named ids x es →
      ∃ out', peReadRsrcStringsInto file garbage out = (true, out') ∧ out'.num = es.length ∧
        ∀ (y : ℕ) (e : RsrcEntry), es[y]? = some e → out'.id[y]? = some e.id ∧
          out'.addr[y]? = some (file.baseAddr + e.rva) ∧ out'.size[y]? = some e.size) ∧
    (∀ root named ids : ℕ, RsrcRoot file root named ids →
      (∀ y < ids, readU32 file.f (idEntry root named y) ≠ 6) →
      ∃ out', peReadRsrcStringsInto file garbage out = (true, out') ∧ out'.num = 0) ∧
    ((peReadRsrcStringsInto file garbage out).1 = false →
      (peReadRsrcStringsInto file garbage out).2 = out) := by
  rw [peReadRsrcStringsInto_eq]
  refine ⟨?_, ?_, ?_⟩
  · intro root named ids x es hroot hs
    rw [hroot.strings hs]
    refine ⟨_, rfl, rfl, fun y e he => ?_⟩
    simp [he]
  · intro root named ids hroot hno
    rw [hroot.no_strings hno]
    exact ⟨_, rfl, rfl⟩
  · cases peReadRsrcStrings file with
    | none => exact fun _ => rfl
    | some out' => exact fun h => absurd h (by simp)

/-- The root, the directory of the strings, one for each of them, the two leaves and the blocks. -/
def rsrcBytes : List UInt8 :=
  [List.replicate 0xc 0, word 0x10001, word 0x800000a0, word 0x80000020, word 6, word 0x80000020,
    List.replicate 0xc 0, word 0x20000, word 7, word 0x80000040, word 9, word 0x80000058,
    List.replicate 0xc 0, word 0x10000, word 0x409, word 0x70,
    List.replicate 0xc 0, word 0x10000, word 0x409, word 0x80,
    word 0x1090, word 4, word 0, word 0, word 0x1094, word 8, word 0, word 0,
    List.replicate 0xc 0].flatten

def rsrcImage : List UInt8 :=
  [List.replicate 0x3c 0, word 0x40,
    peBytes 1 0x78 0x1000 0x400000 [(0, 0), (0, 0), (0x1000, 0x9c)],
    sectionBytes (ascii ".rsrc") 0x9c 0x1000 0x9c 0xf8 0x40000040, rsrcBytes].flatten

def rsrcFile : PeFile where
  f := rsrcImage
  headerOff := 0x40
  datadirOff := 0xb8
  sectionsOff := 0xd0
  sectionsNum := 1
  entrypoint := 0x1000
  baseAddr := 0x400000
  datadirNum := 3

lemma rsrcFile_tree : (rsrcFile.f.drop 0xf8).take rsrcBytes.length = rsrcBytes := by decide +kernel

theorem rsrc_strings_decoded_two :
    ∃ out', peReadRsrcStringsInto rsrcFile (fun _ k => k) ⟨2, [1, 2], [3, 4], [5, 6]⟩ = (true, out') ∧
      out'.num = 2 ∧
      ∀ (y : ℕ) (e : RsrcEntry), [RsrcEntry.mk 7 0x1090 4, ⟨9, 0x1094, 8⟩][y]? = some e →
        out'.id[y]? = some e.id ∧ out'.addr[y]? = some (0x400000 + e.rva) ∧
          out'.size[y]? = some e.size := by
  refine (rsrc_strings_decoded rsrcFile (fun _ k => k) _).1 0xf8 1 1 0
    [⟨7, 0x1090, 4⟩, ⟨9, 0x1094, 8⟩] ?_ ?_
  · refine ⟨by decide, ⟨by decide, by decide +kernel⟩, ⟨0x1000, 0x9c, 0, by decide +kernel, by decide,
      by decide, ⟨⟨by decide, by decide +kernel, by decide +kernel⟩, by omega⟩, by decide +kernel⟩,
      ⟨by decide +kernel, by decide +kernel, by decide +kernel⟩⟩
  · have hoff : entryOff rsrcFile (idEntry 0xf8 1 0) = 0x20 := by decide +kernel
    refine ⟨by decide, by decide +kernel, by omega, by decide +kernel, 0, ?_, ?_⟩
    · rw [hoff]
      exact ⟨by decide +kernel, by decide +kernel, by decide +kernel⟩
    · rw [hoff]
      intro y hy
      have hy' : y < 2 := hy
      interval_cases y
      · exact RsrcEntry.at_tree (e := ⟨7, 0x1090, 4⟩) rsrcBytes 0x30 0x40 0x70 rsrcFile_tree
          (by decide +kernel) (by decide) (by decide) (by decide) (by decide) (by decide)
      · exact RsrcEntry.at_tree (e := ⟨9, 0x1094, 8⟩) rsrcBytes 0x38 0x58 0x80 rsrcFile_tree
          (by decide +kernel) (by decide) (by decide) (by decide) (by decide) (by decide)

end Metroskrew.Relink
