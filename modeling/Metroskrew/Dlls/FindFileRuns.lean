import Metroskrew.Dlls.FindFile

/-! Every run of a find handle lists what is still there, in order, and leaves no block behind. -/

namespace Metroskrew.Dlls.FindFile

open Metroskrew.Library

variable (os : Os)

/-- What is reported for a file, if it is there at the `i`th `stat`. -/
def existingAt (i : ℕ) (path name : CString) : Option FindData :=
  match os.stat i path with
  | .found isDir => some ⟨fileAttributes isDir, name⟩
  | .failed _ => none

def listed (dir : CString) (i : ℕ) (entries : List CString) : List FindData :=
  (entries.zipIdx i).filterMap fun entry => existingAt os entry.2 (dir ++ 0x2f :: entry.1) entry.1

/-- The files that a name stands for and that are there when their turn comes. -/
def existing (path : CString) (i : ℕ) : List FindData :=
  if path.drop (path.length - 2) = ascii "/*" then
    let dir := path.take (path.length - 2)
    ((os.opendir dir).map (listed os dir i)).getD []
  else (existingAt os i path ((component path).take (maxPath - 1))).toList

variable {os} {heap : Heap Block} {w : World} {findfile fuel : ℕ}

lemma free_some {a : ℕ} {b : Block} (hb : heap.live a = some b) (hdir : ∀ rest, b ≠ .dirStream rest) :
    ∃ heap', free heap a = some heap' ∧ heap'.live = Function.update heap.live a none := by
  obtain ⟨heap', hfree, hlive⟩ := Heap.free_some hb
  refine ⟨heap', ?_, hlive⟩
  rw [free, hb]
  cases b with
  | dirStream rest => exact absurd rfl (hdir rest)
  | path text => exact hfree
  | findfile dir path => exact hfree

lemma textOf_some {a : ℕ} {text : CString} (h : heap.live a = some (.path text)) :
    textOf heap a = some text := by rw [textOf, h]

lemma fieldsOf_some {dir path : Option ℕ} (h : heap.live findfile = some (.findfile dir path)) :
    fieldsOf heap findfile = some (dir, path) := by rw [fieldsOf, h]

variable (os fuel) in
/-- What is done with `full`, which is freed whatever `stat` says. -/
lemma findNextFileADo_full {full : ℕ} {live : ℕ → Option Block} {text : CString}
    (hnext : nextFull findfile w.heap = some (some full, heap))
    (hheap : heap.live = Function.update live full (some (.path text))) (hlive : live full = none) :
    ∃ heap', heap'.live = live ∧ findNextFileADo os findfile (fuel + 1) w =
      match os.stat w.stats text with
      | .found isDir => some (some ⟨fileAttributes isDir, (component text).take (maxPath - 1)⟩,
          ⟨heap', w.stats + 1, w.errno⟩)
      | .failed errno =>
        if errno = enoent then findNextFileADo os findfile fuel ⟨heap', w.stats + 1, errno⟩ else none := by
  have hfull : heap.live full = some (.path text) := by rw [hheap, Function.update_self]
  obtain ⟨heap', hfree, hafter⟩ := free_some hfull (by simp)
  have hsame : heap'.live = live := by
    rw [hafter, hheap, Function.update_idem, ← hlive, Function.update_eq_self]
  refine ⟨heap', hsame, ?_⟩
  rw [findNextFileADo, hnext]
  simp only [bind, Option.bind_some, textOf_some hfull]
  cases hstat : os.stat w.stats text with
  | found isDir =>
    have hvalid : fileAttributes isDir ≠ invalidFileAttributes := by cases isDir <;> decide
    simp [getFileAttributesDo, hstat, hvalid, textOf_some hfull, hfree]
  | failed errno => simp [getFileAttributesDo, hstat, hfree]

lemma component_join {name : CString} (h : 0x2f ∉ name) (dir : CString) :
    component (dir ++ 0x2f :: name) = name := by
  have hall : ∀ c ∈ name.reverse, decide (c ≠ 0x2f) = true := by
    intro c hc
    simpa using ne_of_mem_of_not_mem (List.mem_reverse.mp hc) h
  rw [component, List.rtakeWhile, List.reverse_append, List.reverse_cons, List.append_assoc,
    List.takeWhile_append_of_pos hall]
  simp

lemma listed_cons (dir : CString) (i : ℕ) (name : CString) (rest : List CString) :
    listed os dir i (name :: rest) =
      (existingAt os i (dir ++ 0x2f :: name) name).toList ++ listed os dir (i + 1) rest := by
  rw [listed, List.zipIdx_cons, List.filterMap_cons]
  cases existingAt os i (dir ++ 0x2f :: name) name <;> rfl

/-- The blocks of a handle on a directory beside those that are not its own. -/
def ofDirectory (base : ℕ → Option Block) (path dir findfile : ℕ) (text : CString)
    (rest : List CString) : ℕ → Option Block :=
  Function.update
    (Function.update (Function.update base path (some (.path text))) dir (some (.dirStream rest)))
    findfile (some (.findfile (some dir) (some path)))

def ofFile (base : ℕ → Option Block) (path findfile : ℕ) (text : CString) : ℕ → Option Block :=
  Function.update (Function.update base path (some (.path text))) findfile
    (some (.findfile none (some path)))

def ofSpent (base : ℕ → Option Block) (findfile : ℕ) : ℕ → Option Block :=
  Function.update base findfile (some (.findfile none none))

structure Apart (base : ℕ → Option Block) (path dir findfile : ℕ) : Prop where
  path_free : base path = none
  dir_free : base dir = none
  findfile_free : base findfile = none
  path_ne_dir : path ≠ dir
  path_ne_findfile : path ≠ findfile
  dir_ne_findfile : dir ≠ findfile

variable {base : ℕ → Option Block} {path dir : ℕ} {text : CString} {rest : List CString}

lemma ofDirectory_self : ofDirectory base path dir findfile text rest findfile =
    some (.findfile (some dir) (some path)) := Function.update_self _ _ _

lemma ofFile_self : ofFile base path findfile text findfile = some (.findfile none (some path)) :=
  Function.update_self _ _ _

lemma ofFile_path (hne : path ≠ findfile) :
    ofFile base path findfile text path = some (.path text) := by
  rw [ofFile, Function.update_of_ne hne, Function.update_self]

lemma ofFile_released (hpath : base path = none) (hfindfile : base findfile = none)
    (hne : path ≠ findfile) :
    Function.update (Function.update (ofFile base path findfile text) path none) findfile none =
      base := by
  funext a
  rw [ofFile]
  by_cases hafindfile : a = findfile
  · simp [hafindfile, hfindfile]
  · by_cases hapath : a = path
    · simp [hapath, hpath, hne]
    · simp [hafindfile, hapath]

lemma ofSpent_self : ofSpent base findfile findfile = some (.findfile none none) :=
  Function.update_self _ _ _

namespace Apart

variable (h : Apart base path dir findfile)

include h

lemma at_dir : ofDirectory base path dir findfile text rest dir = some (.dirStream rest) := by
  rw [ofDirectory, Function.update_of_ne h.dir_ne_findfile, Function.update_self]

lemma at_path : ofDirectory base path dir findfile text rest path = some (.path text) := by
  rw [ofDirectory, Function.update_of_ne h.path_ne_findfile, Function.update_of_ne h.path_ne_dir,
    Function.update_self]

lemma update_dir (rest' : List CString) :
    Function.update (ofDirectory base path dir findfile text rest) dir (some (.dirStream rest')) =
      ofDirectory base path dir findfile text rest' := by
  rw [ofDirectory, Function.update_comm h.dir_ne_findfile.symm, Function.update_idem, ofDirectory]

lemma released :
    Function.update (Function.update (Function.update (ofDirectory base path dir findfile text rest)
      dir none) path none) findfile none = base := by
  funext a
  rw [ofDirectory]
  by_cases hfindfile : a = findfile
  · simp [hfindfile, h.findfile_free]
  · by_cases hpath : a = path
    · simp [hpath, h.path_free, h.path_ne_findfile]
    · by_cases hdir : a = dir
      · simp [hdir, h.dir_free, h.dir_ne_findfile, h.path_ne_dir.symm]
      · simp [hfindfile, hpath, hdir]

end Apart

lemma nextFull_end (h : Apart base path dir findfile)
    (hlive : heap.live = ofDirectory base path dir findfile text []) :
    nextFull findfile heap = some (none, heap) := by
  have hfields : fieldsOf heap findfile = some (some dir, some path) :=
    fieldsOf_some (by rw [hlive, ofDirectory_self])
  have hread : readdir heap dir = some (none, heap) := by
    rw [readdir, hlive, h.at_dir]
  simp [nextFull, hfields, hread]

lemma nextFull_entry (h : Apart base path dir findfile) {name : CString}
    (hlive : heap.live = ofDirectory base path dir findfile text (name :: rest)) :
    ∃ full heap', nextFull findfile heap = some (some full, heap') ∧
      heap'.live = Function.update (ofDirectory base path dir findfile text rest) full
        (some (.path (text ++ 0x2f :: name))) ∧
      ofDirectory base path dir findfile text rest full = none := by
  have hfields : fieldsOf heap findfile = some (some dir, some path) :=
    fieldsOf_some (by rw [hlive, ofDirectory_self])
  have hdir : heap.live dir = some (.dirStream (name :: rest)) := by rw [hlive, h.at_dir]
  obtain ⟨heap₁, hstore, hlive₁⟩ := Heap.store_some hdir (.dirStream rest)
  rw [hlive, h.update_dir] at hlive₁
  have hread : readdir heap dir = some (some name, heap₁) := by
    rw [readdir, hdir]
    simp [hstore]
  have htext : textOf heap₁ path = some text := textOf_some (by rw [hlive₁, h.at_path])
  refine ⟨heap₁.next, (heap₁.malloc (.path (text ++ 0x2f :: name))).2, ?_, ?_, ?_⟩
  · simp [nextFull, hfields, hread, htext, Heap.malloc_fst]
  · rw [Heap.malloc_live, hlive₁]
  · rw [← hlive₁, Heap.live_next]

def OnlyGone (os : Os) : Prop := ∀ i path errno, os.stat i path = .failed errno → errno = enoent

def Named (name : CString) : Prop := name.length < maxPath ∧ 0x2f ∉ name

instance (name : CString) : Decidable (Named name) :=
  inferInstanceAs (Decidable (name.length < maxPath ∧ 0x2f ∉ name))

lemma findNextFileADo_directory (hgone : OnlyGone os) (h : Apart base path dir findfile)
    (hnames : ∀ name ∈ rest, Named name) (hfuel : rest.length < fuel)
    (hlive : w.heap.live = ofDirectory base path dir findfile text rest) :
    ∃ w' rest', findNextFileADo os findfile fuel w =
        some ((listed os text w.stats rest).head?, w') ∧
      w'.heap.live = ofDirectory base path dir findfile text rest' ∧
      listed os text w'.stats rest' = (listed os text w.stats rest).tail ∧ rest' <:+ rest := by
  induction rest generalizing w fuel with
  | nil =>
    obtain ⟨fuel, rfl⟩ := Nat.exists_eq_succ_of_ne_zero (Nat.ne_of_gt hfuel)
    refine ⟨w, [], ?_, hlive, rfl, List.suffix_rfl⟩
    simp [findNextFileADo, nextFull_end h hlive, listed]
  | cons name rest ih =>
    obtain ⟨fuel, rfl⟩ := Nat.exists_eq_succ_of_ne_zero (Nat.ne_of_gt (Nat.zero_lt_of_lt hfuel))
    obtain ⟨full, heap, hnext, hheap, hfresh⟩ := nextFull_entry h hlive
    obtain ⟨heap', hlive', hstep⟩ := findNextFileADo_full os fuel hnext hheap hfresh
    obtain ⟨hshort, hslash⟩ := hnames name List.mem_cons_self
    rw [hstep, listed_cons, existingAt]
    cases hstat : os.stat w.stats (text ++ 0x2f :: name) with
    | found isDir =>
      refine ⟨⟨heap', w.stats + 1, w.errno⟩, rest, ?_, hlive', rfl, List.suffix_cons name rest⟩
      have htake : name.take (maxPath - 1) = name := List.take_of_length_le (Nat.le_sub_one_of_lt hshort)
      simp [component_join hslash, htake]
    | failed errno =>
      obtain rfl := hgone _ _ _ hstat
      obtain ⟨w', rest', hrest, hlive'', htail, hsuffix⟩ :=
        ih (w := ⟨heap', w.stats + 1, enoent⟩)
          (fun name' hname => hnames name' (List.mem_cons_of_mem name hname))
          (Nat.lt_of_succ_lt_succ hfuel) hlive'
      exact ⟨w', rest', by simpa using hrest, hlive'', htail, hsuffix.trans (List.suffix_cons name rest)⟩

/-- What a handle holds beside `base`, and the files it has yet to report. -/
inductive Handle (os : Os) (base : ℕ → Option Block) (findfile fuel : ℕ) : World → List FindData → Prop
  | directory {w : World} {path dir : ℕ} {text : CString} {rest : List CString} :
      Apart base path dir findfile → (∀ name ∈ rest, Named name) → rest.length < fuel →
      w.heap.live = ofDirectory base path dir findfile text rest →
      Handle os base findfile fuel w (listed os text w.stats rest)
  | file {w : World} {path : ℕ} {text : CString} :
      base path = none → base findfile = none → path ≠ findfile → 1 < fuel →
      w.heap.live = ofFile base path findfile text →
      Handle os base findfile fuel w
        (existingAt os w.stats text ((component text).take (maxPath - 1))).toList
  | spent {w : World} :
      base findfile = none → 0 < fuel →
      w.heap.live = ofSpent base findfile →
      Handle os base findfile fuel w []

lemma findNextFileADo_spent (hfuel : 0 < fuel)
    (hlive : w.heap.live = ofSpent base findfile) :
    findNextFileADo os findfile fuel w = some (none, w) := by
  obtain ⟨fuel, rfl⟩ := Nat.exists_eq_succ_of_ne_zero (Nat.ne_of_gt hfuel)
  have hfields : fieldsOf w.heap findfile = some (none, none) :=
    fieldsOf_some (by rw [hlive, ofSpent_self])
  simp [findNextFileADo, nextFull, hfields]

/-- The handle has given its path away, whether the file is there or not. -/
lemma findNextFileADo_file (hgone : OnlyGone os) (hpath : base path = none) (hne : path ≠ findfile)
    (hfuel : 1 < fuel)
    (hlive : w.heap.live = ofFile base path findfile text) :
    ∃ w', findNextFileADo os findfile fuel w =
        some (existingAt os w.stats text ((component text).take (maxPath - 1)), w') ∧
      w'.heap.live = ofSpent base findfile := by
  obtain ⟨fuel, rfl⟩ := Nat.exists_eq_succ_of_ne_zero (Nat.ne_of_gt (Nat.zero_lt_of_lt hfuel))
  have hself : w.heap.live findfile = some (.findfile none (some path)) := by
    rw [hlive, ofFile_self]
  obtain ⟨heap, hstore, hgiven⟩ := Heap.store_some hself (.findfile none none)
  have hnext : nextFull findfile w.heap = some (some path, heap) := by
    simp [nextFull, fieldsOf_some hself, hstore]
  have hheap : heap.live = Function.update (ofSpent base findfile) path (some (.path text)) := by
    rw [hgiven, hlive, ofFile, Function.update_idem, Function.update_comm hne, ofSpent]
  obtain ⟨heap', hlive', hstep⟩ := findNextFileADo_full os fuel hnext hheap
    (by rw [ofSpent, Function.update_of_ne hne, hpath])
  rw [hstep, existingAt]
  cases hstat : os.stat w.stats text with
  | found isDir => exact ⟨⟨heap', w.stats + 1, w.errno⟩, rfl, hlive'⟩
  | failed errno =>
    obtain rfl := hgone _ _ _ hstat
    refine ⟨⟨heap', w.stats + 1, enoent⟩, ?_, hlive'⟩
    simp only [if_pos]
    exact findNextFileADo_spent (Nat.lt_of_succ_lt_succ hfuel) hlive'

variable {found : List FindData}

/-- One call reports the first file that is left, and keeps what the handle holds. -/
lemma Handle.next (hgone : OnlyGone os) (h : Handle os base findfile fuel w found) :
    ∃ w', findNextFileADo os findfile fuel w = some (found.head?, w') ∧
      Handle os base findfile fuel w' found.tail := by
  cases h with
  | directory hapart hnames hfuel hlive =>
    obtain ⟨w', rest', hnext, hlive', htail, hsuffix⟩ :=
      findNextFileADo_directory hgone hapart hnames hfuel hlive
    refine ⟨w', hnext, ?_⟩
    rw [← htail]
    apply Handle.directory hapart (fun name hname => hnames name (hsuffix.subset hname)) _ hlive'
    exact hsuffix.length_le.trans_lt hfuel
  | @file path text hpath hfindfile hne hfuel hlive =>
    obtain ⟨w', hnext, hlive'⟩ := findNextFileADo_file hgone hpath hne hfuel hlive
    have hspent : Handle os base findfile fuel w' [] :=
      .spent hfindfile (Nat.zero_lt_of_lt hfuel) hlive'
    generalize existingAt os w.stats text ((component text).take (maxPath - 1)) = data at hnext ⊢
    cases data with
    | none => exact ⟨w', hnext, hspent⟩
    | some data => exact ⟨w', hnext, hspent⟩
  | spent hfindfile hfuel hlive =>
    exact ⟨w, findNextFileADo_spent hfuel hlive, .spent hfindfile hfuel hlive⟩

lemma Handle.nexts (hgone : OnlyGone os) (h : Handle os base findfile fuel w found) (n : ℕ) :
    ∃ w', findNextFiles os findfile fuel n w = some ((List.range n).map (found[·]?), w') ∧
      Handle os base findfile fuel w' (found.drop n) := by
  induction n generalizing w found with
  | zero => exact ⟨w, rfl, h⟩
  | succ n ih =>
    obtain ⟨w₁, hfirst, h₁⟩ := h.next hgone
    obtain ⟨w₂, hrest, h₂⟩ := ih h₁
    refine ⟨w₂, ?_, by rwa [List.drop_tail] at h₂⟩
    rw [findNextFiles, hfirst, List.range_succ_eq_map]
    simp [hrest, Function.comp_def, List.head?_eq_getElem?]

lemma findClose_directory (h : Apart base path dir findfile)
    (hlive : heap.live = ofDirectory base path dir findfile text rest) :
    ∃ heap', findClose findfile heap = some heap' ∧ heap'.live = base := by
  have hself : heap.live findfile = some (.findfile (some dir) (some path)) := by
    rw [hlive, ofDirectory_self]
  have hdir : heap.live dir = some (.dirStream rest) := by rw [hlive, h.at_dir]
  obtain ⟨heap₁, hfree₁, hlive₁⟩ := Heap.free_some hdir
  have hclose : closedir heap dir = some heap₁ := by
    rw [closedir, hdir]
    exact hfree₁
  have hpath : heap₁.live path = some (.path text) := by
    rw [hlive₁, Function.update_of_ne h.path_ne_dir, hlive, h.at_path]
  obtain ⟨heap₂, hfree₂, hlive₂⟩ := free_some hpath (by simp)
  have hlast : heap₂.live findfile = some (.findfile (some dir) (some path)) := by
    rw [hlive₂, Function.update_of_ne h.path_ne_findfile.symm, hlive₁,
      Function.update_of_ne h.dir_ne_findfile.symm, hself]
  obtain ⟨heap₃, hfree₃, hlive₃⟩ := free_some hlast (by simp)
  refine ⟨heap₃, ?_, by rw [hlive₃, hlive₂, hlive₁, hlive, h.released]⟩
  simp [findClose, fieldsOf_some hself, hclose, hfree₂, hfree₃]

lemma findClose_file (hpath : base path = none) (hfindfile : base findfile = none)
    (hne : path ≠ findfile)
    (hlive : heap.live = ofFile base path findfile text) :
    ∃ heap', findClose findfile heap = some heap' ∧ heap'.live = base := by
  have hself : heap.live findfile = some (.findfile none (some path)) := by
    rw [hlive, ofFile_self]
  have hblock : heap.live path = some (.path text) := by
    rw [hlive, ofFile_path hne]
  obtain ⟨heap₁, hfree₁, hlive₁⟩ := free_some hblock (by simp)
  have hlast : heap₁.live findfile = some (.findfile none (some path)) := by
    rw [hlive₁, Function.update_of_ne hne.symm, hself]
  obtain ⟨heap₂, hfree₂, hlive₂⟩ := free_some hlast (by simp)
  refine ⟨heap₂, by simp [findClose, fieldsOf_some hself, hfree₁, hfree₂], ?_⟩
  rw [hlive₂, hlive₁, hlive, ofFile_released hpath hfindfile hne]

lemma findClose_spent (hfindfile : base findfile = none)
    (hlive : heap.live = ofSpent base findfile) :
    ∃ heap', findClose findfile heap = some heap' ∧ heap'.live = base := by
  have hself : heap.live findfile = some (.findfile none none) := by
    rw [hlive, ofSpent_self]
  obtain ⟨heap', hfree, hlive'⟩ := free_some hself (by simp)
  refine ⟨heap', by simp [findClose, fieldsOf_some hself, hfree], ?_⟩
  rw [hlive', hlive, ofSpent, Function.update_idem, ← hfindfile, Function.update_eq_self]

/-- The clean-up frees what the handle holds, whatever that is by then. -/
lemma Handle.close (h : Handle os base findfile fuel w found) :
    ∃ heap', findClose findfile w.heap = some heap' ∧ heap'.live = base := by
  cases h with
  | directory hapart hnames hfuel hlive => exact findClose_directory hapart hlive
  | file hpath hfindfile hne hfuel hlive => exact findClose_file hpath hfindfile hne hlive
  | spent hfindfile hfuel hlive => exact findClose_spent hfindfile hlive

lemma base_ne {a a' : ℕ} {b : Block} (h : base a = some b) (h' : base a' = none) : a' ≠ a := by
  rintro rfl
  rw [h] at h'
  cases h'

/-- A block that is not the handle's is still there. -/
lemma Handle.kept (h : Handle os base findfile fuel w found) {a : ℕ} {b : Block} (ha : base a = some b) :
    w.heap.live a = some b := by
  cases h with
  | directory hapart hnames hfuel hlive =>
    rw [hlive, ofDirectory, Function.update_of_ne (base_ne ha hapart.findfile_free).symm,
      Function.update_of_ne (base_ne ha hapart.dir_free).symm,
      Function.update_of_ne (base_ne ha hapart.path_free).symm, ha]
  | file hpath hfindfile hne hfuel hlive =>
    rw [hlive, ofFile, Function.update_of_ne (base_ne ha hfindfile).symm,
      Function.update_of_ne (base_ne ha hpath).symm, ha]
  | spent hfindfile hfuel hlive =>
    rw [hlive, ofSpent, Function.update_of_ne (base_ne ha hfindfile).symm, ha]

lemma Handle.without (h : Handle os base findfile fuel w found) {a : ℕ} {b : Block}
    (ha : base a = some b) (hheap : heap.live = Function.update w.heap.live a none) :
    Handle os (Function.update base a none) findfile fuel { w with heap } found := by
  have hnone : ∀ {a'}, base a' = none → Function.update base a none a' = none := fun h' => by
    rw [Function.update_of_ne (base_ne ha h'), h']
  cases h with
  | directory hapart hnames hfuel hlive =>
    refine .directory ⟨hnone hapart.path_free, hnone hapart.dir_free, hnone hapart.findfile_free,
      hapart.path_ne_dir, hapart.path_ne_findfile, hapart.dir_ne_findfile⟩ hnames hfuel ?_
    rw [hheap, hlive, ofDirectory, ofDirectory, Function.update_comm (base_ne ha hapart.findfile_free),
      Function.update_comm (base_ne ha hapart.dir_free),
      Function.update_comm (base_ne ha hapart.path_free)]
  | file hpath hfindfile hne hfuel hlive =>
    refine .file (hnone hpath) (hnone hfindfile) hne hfuel ?_
    rw [hheap, hlive, ofFile, ofFile, Function.update_comm (base_ne ha hfindfile),
      Function.update_comm (base_ne ha hpath)]
  | spent hfindfile hfuel hlive =>
    refine .spent (hnone hfindfile) hfuel ?_
    rw [hheap, hlive, ofSpent, ofSpent, Function.update_comm (base_ne ha hfindfile)]

lemma listing_iff (hlen : 2 ≤ text.length) :
    (text[text.length - 2]? = some 0x2f ∧ text[text.length - 1]? = some 0x2a) ↔
      text.drop (text.length - 2) = ascii "/*" := by
  obtain ⟨a, b, hdrop⟩ : ∃ a b, text.drop (text.length - 2) = [a, b] :=
    List.length_eq_two.mp (by rw [List.length_drop]; omega)
  have hfirst := congrArg (·[0]?) hdrop
  have hsecond := congrArg (·[1]?) hdrop
  simp only [List.getElem?_drop] at hfirst hsecond
  rw [show text.length - 2 + 1 = text.length - 1 by omega] at hsecond
  rw [Nat.add_zero] at hfirst
  rw [hfirst, hsecond, hdrop]
  simp [ascii]

lemma update_none {a a' : ℕ} {b : Block} (h : Function.update base a (some b) a' = none) :
    a' ≠ a ∧ base a' = none := by
  by_cases ha : a' = a
  · rw [ha, Function.update_self] at h
    cases h
  · rw [Function.update_of_ne ha] at h
    exact ⟨ha, h⟩

def AllNamed (os : Os) : Prop :=
  ∀ dir entries, os.opendir dir = some entries → ∀ name ∈ entries, Named name

/-- Enough iterations for the entries of any directory a name stands for. -/
def iterations (os : Os) (text : CString) : ℕ :=
  ((os.opendir (text.take (text.length - 2))).getD []).length + 2

lemma openDir_listing (hnamed : AllNamed os) (hlen : 2 ≤ text.length)
    (hlist : text.drop (text.length - 2) = ascii "/*") (hfuel : iterations os text ≤ fuel)
    (hpath : base path = none)
    (hlive : heap.live = Function.update base path (some (.path text))) :
    (∃ heap', openDir os path heap = some (none, heap') ∧ heap'.live = base ∧
      ∀ i, existing os text i = []) ∨
    ∃ dir heap', openDir os path heap = some (some dir, heap') ∧ ∀ i errno,
      Handle os base heap'.next fuel ⟨(heap'.malloc (.findfile dir (some path))).2, i, errno⟩
        (existing os text i) := by
  have hself : heap.live path = some (.path text) := by rw [hlive, Function.update_self]
  obtain ⟨heap₁, hstore, hlive₁⟩ := Heap.store_some hself (.path (text.take (text.length - 2)))
  rw [hlive, Function.update_idem] at hlive₁
  rw [openDir, textOf_some hself]
  simp only [bind, Option.bind_some, if_neg (Nat.not_lt.mpr hlen), listing_iff hlen, existing,
    if_pos hlist, hstore]
  rw [iterations] at hfuel
  cases hopen : os.opendir (text.take (text.length - 2)) with
  | none =>
    left
    have hpath₁ : heap₁.live path = some (.path (text.take (text.length - 2))) := by
      rw [hlive₁, Function.update_self]
    obtain ⟨heap₂, hfree, hlive₂⟩ := free_some hpath₁ (by simp)
    refine ⟨heap₂, by simp [hfree], ?_, fun i => rfl⟩
    rw [hlive₂, hlive₁, Function.update_idem, ← hpath, Function.update_eq_self]
  | some entries =>
    right
    obtain ⟨hdir_ne, hdir⟩ := update_none (hlive₁ ▸ heap₁.live_next)
    have hlive₂ : (heap₁.malloc (.dirStream entries)).2.live = Function.update
        (Function.update base path (some (.path (text.take (text.length - 2))))) heap₁.next
        (some (.dirStream entries)) := by rw [Heap.malloc_live, hlive₁]
    refine ⟨some heap₁.next, (heap₁.malloc (.dirStream entries)).2, rfl, fun i errno => ?_⟩
    generalize (heap₁.malloc (.dirStream entries)).2 = heap₂ at hlive₂ ⊢
    obtain ⟨hne₁, hfree₁⟩ := update_none (hlive₂ ▸ heap₂.live_next)
    obtain ⟨hne₂, hfree₂⟩ := update_none hfree₁
    rw [hopen, Option.getD_some] at hfuel
    exact .directory ⟨hpath, hdir, hfree₂, hdir_ne.symm, hne₂.symm, hne₁.symm⟩ (hnamed _ _ hopen)
      (by omega) (by rw [Heap.malloc_live, hlive₂, ofDirectory])

lemma openDir_file (hlen : 2 ≤ text.length) (hlist : ¬ text.drop (text.length - 2) = ascii "/*")
    (hfuel : iterations os text ≤ fuel) (hpath : base path = none)
    (hlive : heap.live = Function.update base path (some (.path text))) :
    openDir os path heap = some (some none, heap) ∧ ∀ i errno,
      Handle os base heap.next fuel ⟨(heap.malloc (.findfile none (some path))).2, i, errno⟩
        (existing os text i) := by
  rw [iterations] at hfuel
  constructor
  · rw [openDir, textOf_some (by rw [hlive, Function.update_self])]
    simp only [bind, Option.bind_some, if_neg (Nat.not_lt.mpr hlen), listing_iff hlen, if_neg hlist]
  · intro i errno
    obtain ⟨hne, hfree⟩ := update_none (hlive ▸ heap.live_next)
    rw [existing, if_neg hlist]
    exact .file hpath hfree hne.symm (by omega) (by rw [Heap.malloc_live, hlive, ofFile])

/-- Either the directory cannot be opened, and `dir_path` is gone, or a handle is made. -/
lemma openDir_handle (hnamed : AllNamed os) (hlen : 2 ≤ text.length)
    (hfuel : iterations os text ≤ fuel) (hpath : base path = none)
    (hlive : heap.live = Function.update base path (some (.path text))) :
    (∃ heap', openDir os path heap = some (none, heap') ∧ heap'.live = base ∧
      ∀ i, existing os text i = []) ∨
    ∃ dir heap', openDir os path heap = some (some dir, heap') ∧ ∀ i errno,
      Handle os base heap'.next fuel ⟨(heap'.malloc (.findfile dir (some path))).2, i, errno⟩
        (existing os text i) := by
  by_cases hlist : text.drop (text.length - 2) = ascii "/*"
  · exact openDir_listing hnamed hlen hlist hfuel hpath hlive
  · exact .inr ⟨none, heap, openDir_file hlen hlist hfuel hpath hlive⟩

lemma findFirstFileA_handle (hgone : OnlyGone os) (hnamed : AllNamed os) {lpFileName : CString}
    (hlen : 2 ≤ (pathDupUnx lpFileName).length)
    (hfuel : iterations os (pathDupUnx lpFileName) ≤ fuel) :
    (existing os (pathDupUnx lpFileName) w.stats = [] ∧
      ∃ w', findFirstFileA os fuel lpFileName w = some (none, w') ∧ w'.heap.live = w.heap.live) ∨
    ∃ data findfile w', (existing os (pathDupUnx lpFileName) w.stats).head? = some data ∧
      findFirstFileA os fuel lpFileName w = some (some (findfile, data), w') ∧
      Handle os w.heap.live findfile fuel w' (existing os (pathDupUnx lpFileName) w.stats).tail := by
  rw [findFirstFileA]
  generalize pathDupUnx lpFileName = text at hlen hfuel ⊢
  -- the blocks of `path` and of `dir_path`
  obtain ⟨heap₁, htrace, hlive₁⟩ : ∃ heap₁, w.heap.malloc (.path text) = (w.heap.next, heap₁) ∧
      heap₁.live = Function.update w.heap.live w.heap.next (some (.path text)) := ⟨_, rfl, rfl⟩
  obtain ⟨heap₂, hdirPath, hlive₂⟩ : ∃ heap₂, heap₁.malloc (.path text) = (heap₁.next, heap₂) ∧
      heap₂.live = Function.update heap₁.live heap₁.next (some (.path text)) := ⟨_, rfl, rfl⟩
  have hkept : heap₁.live w.heap.next = some (.path text) := by rw [hlive₁, Function.update_self]
  have hbefore : Function.update heap₁.live w.heap.next none = w.heap.live := by
    rw [hlive₁, Function.update_idem, ← w.heap.live_next, Function.update_eq_self]
  simp only [htrace, hdirPath, bind]
  rcases openDir_handle hnamed hlen hfuel heap₁.live_next hlive₂ with
    ⟨heap₃, hopen, hlive₃, hnil⟩ | ⟨dir, heap₃, hopen, hhandle⟩
  · obtain ⟨heap₄, hfree, hlive₄⟩ := free_some (by rw [hlive₃, hkept]) (by simp)
    refine .inl ⟨hnil w.stats, { w with heap := heap₄ }, ?_, by rw [hlive₄, hlive₃, hbefore]⟩
    simp [hopen, hfree]
  · obtain ⟨w₁, hnext, hhandle₁⟩ := (hhandle w.stats w.errno).next hgone
    cases hfound : existing os text w.stats with
    | nil =>
      rw [hfound] at hnext hhandle₁
      obtain ⟨heap₄, hclose, hlive₄⟩ := hhandle₁.close
      obtain ⟨heap₅, hfree, hlive₅⟩ := free_some (by rw [hlive₄, hkept]) (by simp)
      refine .inl ⟨rfl, { w₁ with heap := heap₅ }, ?_, by rw [hlive₅, hlive₄, hbefore]⟩
      simp [hopen, Heap.malloc_fst, hnext, hclose, hfree]
    | cons data rest =>
      rw [hfound] at hnext hhandle₁
      obtain ⟨heap₄, hfree, hlive₄⟩ := free_some (hhandle₁.kept hkept) (by simp)
      have hwithout := hhandle₁.without hkept hlive₄
      rw [hbefore] at hwithout
      refine .inr ⟨data, heap₃.next, { w₁ with heap := heap₄ }, rfl, ?_, hwithout⟩
      simp [hopen, Heap.malloc_fst, hnext, hfree]

theorem run_enumerates (os : Os) (hgone : OnlyGone os) (hnamed : AllNamed os) (lpFileName : CString)
    (hlen : 2 ≤ (pathDupUnx lpFileName).length) (w : World) :
    let found := existing os (pathDupUnx lpFileName) w.stats
    ∃ enough, ∀ fuel ≥ enough, ∀ n, ∃ w',
      run os fuel lpFileName n w = some (found[0]?,
        if found = [] then [] else (List.range n).map fun i => found[i + 1]?, w') ∧
      w'.heap.live = w.heap.live ∧
      ∀ a, w.heap.next ≤ a → a < w'.heap.next → w'.heap.freed.count a = 1 := by
  intro found
  refine ⟨iterations os (pathDupUnx lpFileName), fun fuel hfuel n => ?_⟩
  have hrun : ∃ w', run os fuel lpFileName n w = some (found[0]?,
        if found = [] then [] else (List.range n).map fun i => found[i + 1]?, w') ∧
      w'.heap.live = w.heap.live := by
    rw [run]
    rcases findFirstFileA_handle hgone hnamed hlen hfuel with
      ⟨hnil, w₁, hfirst, hlive⟩ | ⟨data, findfile, w₁, hdata, hfirst, hhandle⟩
    · refine ⟨w₁, ?_, hlive⟩
      simp [hfirst, found, hnil]
    · obtain ⟨w₂, hnexts, hhandle⟩ := hhandle.nexts hgone n
      obtain ⟨heap, hclose, hlive⟩ := hhandle.close
      refine ⟨{ w₂ with heap }, ?_, hlive⟩
      have hne : found ≠ [] := by
        intro hnil
        rw [show existing os (pathDupUnx lpFileName) w.stats = [] from hnil] at hdata
        cases hdata
      rw [if_neg hne, hfirst]
      simp [hnexts, hclose, ← List.head?_eq_getElem?, found, hdata]
  obtain ⟨w', hrun, hlive⟩ := hrun
  exact ⟨w', hrun, hlive, fun a hle hlt => Heap.freed_once hlive hle hlt⟩

/-- `b` is gone by the time it is looked at. -/
def withoutB : Os where
  opendir dir := if dir = ascii "d" then some [ascii "a", ascii "b", ascii "c"] else none
  stat _ path := if path = ascii "d/b" then .failed enoent else .found false

theorem run_enumerates_vanished : ∃ enough, ∀ fuel ≥ enough, ∃ w',
    run withoutB fuel (ascii "d\\*") 3 ⟨Heap.empty, 0, 0⟩ =
      some (some ⟨0x20, ascii "a"⟩, [some ⟨0x20, ascii "c"⟩, none, none], w') ∧
      w'.heap.live = Heap.empty.live ∧ ∀ a < w'.heap.next, w'.heap.freed.count a = 1 := by
  have hgone : OnlyGone withoutB := by
    intro i path errno hstat
    simp only [withoutB] at hstat
    split_ifs at hstat
    exact (Stat.failed.inj hstat).symm
  have hnamed : AllNamed withoutB := by
    intro dir entries hopen
    simp only [withoutB] at hopen
    split_ifs at hopen
    obtain rfl := Option.some.inj hopen
    decide
  have hfound : existing withoutB (pathDupUnx (ascii "d\\*")) 0 =
      [⟨0x20, ascii "a"⟩, ⟨0x20, ascii "c"⟩] := by decide +kernel
  obtain ⟨enough, hruns⟩ :=
    run_enumerates withoutB hgone hnamed (ascii "d\\*") (by decide +kernel) ⟨Heap.empty, 0, 0⟩
  refine ⟨enough, fun fuel hfuel => ?_⟩
  obtain ⟨w', hrun, hlive, hfreed⟩ := hruns fuel hfuel 3
  rw [hfound] at hrun
  exact ⟨w', hrun, hlive, fun a hlt => hfreed a (Nat.zero_le a) hlt⟩

end Metroskrew.Dlls.FindFile
