import Mathlib.Tactic

/-! Files behind numbered descriptors, as POSIX has them. A descriptor gets the lowest number that is
free, an open file has a position of its own, and an unlinked file lives on behind its descriptors. -/

namespace Metroskrew.Library.Descriptors

/-- A table with room for `limit` things. -/
structure Slots (α : Type*) where
  limit : ℕ
  get : ℕ → Option α
  inside : ∀ n, limit ≤ n → get n = none

namespace Slots

variable {α : Type*} (s : Slots α)

def lowest : Option ℕ := (List.range s.limit).find? fun n => (s.get n).isNone

def put (n : ℕ) (a : α) : Slots α where
  limit := s.limit
  get := if n < s.limit then Function.update s.get n (some a) else s.get
  inside := by
    intro m hm
    split_ifs with hn
    · rw [Function.update_of_ne (by omega), s.inside m hm]
    · exact s.inside m hm

def remove (n : ℕ) : Slots α where
  limit := s.limit
  get := Function.update s.get n none
  inside := by
    intro m hm
    by_cases h : m = n
    · rw [h, Function.update_self]
    · rw [Function.update_of_ne h, s.inside m hm]

variable {s}

lemma lt_limit {n : ℕ} {a : α} (h : s.get n = some a) : n < s.limit := by
  by_contra hn
  rw [s.inside n (Nat.le_of_not_lt hn)] at h
  cases h

lemma lowest_some {n : ℕ} (h : s.lowest = some n) : n < s.limit ∧ s.get n = none := by
  refine ⟨List.mem_range.mp (List.mem_of_find?_eq_some h), ?_⟩
  simpa using List.find?_some h

lemma lowest_none (h : s.lowest = none) {n : ℕ} (hn : n < s.limit) : s.get n ≠ none := by
  have := List.find?_eq_none.mp h n (List.mem_range.mpr hn)
  simpa using this

@[simp] lemma put_limit (n : ℕ) (a : α) : (s.put n a).limit = s.limit := rfl

@[simp] lemma remove_limit (n : ℕ) : (s.remove n).limit = s.limit := rfl

@[simp] lemma remove_get (n : ℕ) : (s.remove n).get = Function.update s.get n none := rfl

lemma put_get {n : ℕ} (h : n < s.limit) (a : α) :
    (s.put n a).get = Function.update s.get n (some a) := if_pos h

lemma get_put {n m : ℕ} {a b : α} (h : (s.put n a).get m = some b) :
    m = n ∧ b = a ∨ s.get m = some b := by
  by_cases hn : n < s.limit
  · rw [put_get hn] at h
    by_cases hm : m = n
    · rw [hm, Function.update_self] at h
      exact .inl ⟨hm, (Option.some.inj h).symm⟩
    · rw [Function.update_of_ne hm] at h
      exact .inr h
  · simp only [put, if_neg hn] at h
    exact .inr h

lemma get_remove {n m : ℕ} {a : α} (h : (s.remove n).get m = some a) : s.get m = some a := by
  by_cases hm : m = n
  · rw [hm, remove_get, Function.update_self] at h
    cases h
  · rwa [remove_get, Function.update_of_ne hm] at h

end Slots

inductive Access where
  | rdonly | wronly | rdwr
  deriving Repr, DecidableEq

def Access.reads : Access → Bool
  | .wronly => false
  | _ => true

def Access.writes : Access → Bool
  | .rdonly => false
  | _ => true

/-- The flags of `open`. -/
structure Flags where
  access : Access
  creat : Bool
  excl : Bool
  trunc : Bool
  deriving Repr, DecidableEq

structure OpenFile where
  inode : ℕ
  pos : ℕ
  access : Access
  deriving Repr, DecidableEq

/-- What a name leads to. -/
inductive Node where
  | file (inode : ℕ)
  | device
  deriving Repr, DecidableEq

/-- A device is whatever is not a file: a terminal, a pipe, a directory. -/
inductive Object where
  | file (o : OpenFile)
  | device
  deriving Repr, DecidableEq

/-- What the system decides in a call: whether it lets it through, how many bytes it moves, what a
device answers, and where the holes of a file are. -/
structure Host where
  permits : Bool
  room : ℕ
  device : List UInt8
  place : Option ℕ
  deriving Repr, DecidableEq

structure System (δ : Type*) where
  fds : Slots Object
  entry : δ → Option Node
  data : ℕ → List UInt8
  next : ℕ
  named : ∀ d i, entry d = some (.file i) → i < next
  opened : ∀ fd o, fds.get fd = some (.file o) → o.inode < next

/-- No call moves more than this. -/
def transferMax : ℕ := 0x7ffff000

def overwrite (bytes : List UInt8) (pos : ℕ) (chunk : List UInt8) : List UInt8 :=
  if chunk = [] then bytes
  else bytes.take pos ++ List.replicate (pos - bytes.length) 0 ++ chunk ++
    bytes.drop (pos + chunk.length)

/-- Where `lseek` goes in a file of that length: from the beginning, from the position or from the
end, or to the data or the hole that follows. -/
def seek (pos length : ℕ) (offset : ℤ) (whence : ℕ) (host : Host) : Option ℕ :=
  if host.permits = false then none
  else
    match whence with
    | 0 => offset.toNat?
    | 1 => (pos + offset).toNat?
    | 2 => (length + offset).toNat?
    | 3 | 4 => host.place.filter fun place => 0 ≤ offset ∧ offset ≤ place ∧ place ≤ length
    | _ => none

section Seek

variable {pos length place whence : ℕ} {offset : ℤ} {host : Host}

lemma seek_some (h : seek pos length offset whence host = some place) :
    (∃ base, [0, pos, length][whence]? = some base ∧ (place : ℤ) = base + offset) ∨
      (whence = 3 ∨ whence = 4) ∧ 0 ≤ offset ∧ offset ≤ place ∧ place ≤ length := by
  unfold seek at h
  split_ifs at h
  split at h
  · exact .inl ⟨0, rfl, by rw [Int.mem_toNat?.mp h]; simp⟩
  · exact .inl ⟨pos, rfl, (Int.mem_toNat?.mp h).symm⟩
  · exact .inl ⟨length, rfl, (Int.mem_toNat?.mp h).symm⟩
  · exact .inr ⟨.inl rfl, by simpa using (Option.filter_eq_some_iff.mp h).2⟩
  · exact .inr ⟨.inr rfl, by simpa using (Option.filter_eq_some_iff.mp h).2⟩
  · cases h

lemma seek_none (h : seek pos length offset whence host = none) :
    host.permits = false ∨
      ∀ base, [0, pos, length][whence]? = some base → (base : ℤ) + offset < 0 := by
  have hneg : ∀ {a : ℤ}, a.toNat? = none → a < 0 := by
    intro a ha
    by_contra hpos
    rw [Int.mem_toNat?.mpr (Int.toNat_of_nonneg (not_lt.mp hpos)).symm] at ha
    cases ha
  unfold seek at h
  split_ifs at h with hpermits
  · exact .inl hpermits
  · right
    intro base hbase
    split at h
    · cases hbase
      simpa using hneg h
    · cases hbase
      exact hneg h
    · cases hbase
      exact hneg h
    · cases hbase
    · cases hbase
    · next hzero hone htwo hthree hfour =>
      obtain ⟨hlt, -⟩ := List.getElem?_eq_some_iff.mp hbase
      have hlt : whence < 3 := hlt
      interval_cases whence <;> contradiction

end Seek

namespace System

variable {δ : Type*} (sys : System δ)

/-- The descriptor stands for the object from now on. -/
def hold (fd : ℕ) (object : Object) (h : ∀ o, object = .file o → o.inode < sys.next) : System δ where
  fds := sys.fds.put fd object
  entry := sys.entry
  data := sys.data
  next := sys.next
  named := sys.named
  opened := by
    intro fd' o ho
    rcases Slots.get_put ho with ⟨-, hobject⟩ | ho
    · exact h o hobject.symm
    · exact sys.opened fd' o ho

def holdFile (fd : ℕ) (o : OpenFile) (h : o.inode < sys.next) : System δ :=
  sys.hold fd (.file o) fun _ ho => Object.file.inj ho ▸ h

def setData (i : ℕ) (bytes : List UInt8) : System δ :=
  { sys with data := Function.update sys.data i bytes }

/-- `opendir`, which takes a descriptor too. -/
def openDevice (host : Host) : Option (ℕ × System δ) :=
  if host.permits = false then none
  else
    match sys.fds.lowest with
    | none => none
    | some fd => some (fd, sys.hold fd .device fun _ ho => Object.noConfusion ho)

/-- `read`; at the end of a file there is nothing, elsewhere at least a byte. -/
def read (fd n : ℕ) (host : Host) : Option (List UInt8) × System δ :=
  match h : sys.fds.get fd with
  | none => (none, sys)
  | some .device =>
    if host.permits then (some (host.device.take (min n (min host.room transferMax))), sys)
    else (none, sys)
  | some (.file o) =>
    if host.permits && o.access.reads then
      let chunk := ((sys.data o.inode).drop o.pos).take (min n (min (host.room + 1) transferMax))
      (some chunk, sys.holdFile fd { o with pos := o.pos + chunk.length } (sys.opened fd o h))
    else (none, sys)

def write (fd : ℕ) (buf : List UInt8) (host : Host) : Option ℕ × System δ :=
  let chunk := buf.take (min host.room transferMax)
  match h : sys.fds.get fd with
  | none => (none, sys)
  | some .device => if host.permits then (some chunk.length, sys) else (none, sys)
  | some (.file o) =>
    if host.permits && o.access.writes then
      (some chunk.length,
        (sys.holdFile fd { o with pos := o.pos + chunk.length } (sys.opened fd o h)).setData o.inode
          (overwrite (sys.data o.inode) o.pos chunk))
    else (none, sys)

def lseek (fd : ℕ) (offset : ℤ) (whence : ℕ) (host : Host) : Option ℕ × System δ :=
  match h : sys.fds.get fd with
  | none => (none, sys)
  | some .device => (host.place, sys)
  | some (.file o) =>
    match seek o.pos (sys.data o.inode).length offset whence host with
    | none => (none, sys)
    | some pos => (some pos, sys.holdFile fd { o with pos := pos } (sys.opened fd o h))

/-- The `st_size` of `fstat`. -/
def size (fd : ℕ) (host : Host) : Option ℕ :=
  match sys.fds.get fd with
  | none => none
  | some .device => host.place
  | some (.file o) => if host.permits then some (sys.data o.inode).length else none

/-- `close`, which frees the descriptor even where it reports a failure. -/
def close (fd : ℕ) (host : Host) : Bool × System δ :=
  match sys.fds.get fd with
  | none => (false, sys)
  | some _ => (host.permits, { sys with
      fds := sys.fds.remove fd
      opened := fun fd' o ho => sys.opened fd' o (Slots.get_remove ho) })

variable {sys}

variable {fd n : ℕ} {o : OpenFile} {host : Host} {buf : List UInt8}

lemma read_none (h : sys.fds.get fd = none) : sys.read fd n host = (none, sys) := by
  unfold read
  split
  · rfl
  · next hd => rw [h] at hd; cases hd
  · next ho => rw [h] at ho; cases ho

lemma read_device (h : sys.fds.get fd = some .device) :
    ∃ answer, sys.read fd n host = (answer, sys) := by
  unfold read
  split
  · exact ⟨_, rfl⟩
  · split_ifs <;> exact ⟨_, rfl⟩
  · next ho => rw [h] at ho; cases ho

lemma read_file (h : sys.fds.get fd = some (.file o)) :
    sys.read fd n host =
      if host.permits && o.access.reads then
        let chunk := ((sys.data o.inode).drop o.pos).take (min n (min (host.room + 1) transferMax))
        (some chunk, sys.holdFile fd { o with pos := o.pos + chunk.length } (sys.opened fd o h))
      else (none, sys) := by
  unfold read
  split
  · next hn => rw [h] at hn; cases hn
  · next hd => rw [h] at hd; cases hd
  · next o' ho =>
    obtain rfl : o = o' := Object.file.inj (Option.some.inj (h.symm.trans ho))
    rfl

lemma write_none (h : sys.fds.get fd = none) : sys.write fd buf host = (none, sys) := by
  unfold write
  split
  · rfl
  · next hd => rw [h] at hd; cases hd
  · next ho => rw [h] at ho; cases ho

lemma write_device (h : sys.fds.get fd = some .device) :
    ∃ answer, sys.write fd buf host = (answer, sys) := by
  unfold write
  split
  · exact ⟨_, rfl⟩
  · dsimp only
    split_ifs <;> exact ⟨_, rfl⟩
  · next ho => rw [h] at ho; cases ho

lemma write_file (h : sys.fds.get fd = some (.file o)) :
    sys.write fd buf host =
      if host.permits && o.access.writes then
        let chunk := buf.take (min host.room transferMax)
        (some chunk.length,
          (sys.holdFile fd { o with pos := o.pos + chunk.length } (sys.opened fd o h)).setData
            o.inode (overwrite (sys.data o.inode) o.pos chunk))
      else (none, sys) := by
  unfold write
  split
  · next hn => rw [h] at hn; cases hn
  · next hd => rw [h] at hd; cases hd
  · next o' ho =>
    obtain rfl : o = o' := Object.file.inj (Option.some.inj (h.symm.trans ho))
    rfl

variable {offset : ℤ} {whence : ℕ}

lemma lseek_none (h : sys.fds.get fd = none) : sys.lseek fd offset whence host = (none, sys) := by
  unfold lseek
  split
  · rfl
  · next hd => rw [h] at hd; cases hd
  · next ho => rw [h] at ho; cases ho

lemma lseek_device (h : sys.fds.get fd = some .device) :
    ∃ answer, sys.lseek fd offset whence host = (answer, sys) := by
  unfold lseek
  split
  · exact ⟨_, rfl⟩
  · exact ⟨_, rfl⟩
  · next ho => rw [h] at ho; cases ho

lemma lseek_file (h : sys.fds.get fd = some (.file o)) :
    sys.lseek fd offset whence host =
      match seek o.pos (sys.data o.inode).length offset whence host with
      | none => (none, sys)
      | some pos => (some pos, sys.holdFile fd { o with pos := pos } (sys.opened fd o h)) := by
  unfold lseek
  split
  · next hn => rw [h] at hn; cases hn
  · next hd => rw [h] at hd; cases hd
  · next o' ho =>
    obtain rfl : o = o' := Object.file.inj (Option.some.inj (h.symm.trans ho))
    rfl

lemma close_none (h : sys.fds.get fd = none) : sys.close fd host = (false, sys) := by
  unfold close
  split
  · rfl
  · next hd => rw [h] at hd; cases hd

lemma close_some {object : Object} (h : sys.fds.get fd = some object) :
    (sys.close fd host).1 = host.permits ∧ (sys.close fd host).2.fds = sys.fds.remove fd ∧
      (sys.close fd host).2.entry = sys.entry ∧ (sys.close fd host).2.data = sys.data := by
  unfold close
  split
  · next hn => rw [h] at hn; cases hn
  · exact ⟨rfl, rfl, rfl, rfl⟩

variable [DecidableEq δ] (sys)

def link (d : δ) : System δ where
  fds := sys.fds
  entry := Function.update sys.entry d (some (.file sys.next))
  data := Function.update sys.data sys.next []
  next := sys.next + 1
  named := by
    intro d' i hi
    by_cases h : d' = d
    · rw [h, Function.update_self, Option.some.injEq, Node.file.injEq] at hi
      omega
    · rw [Function.update_of_ne h] at hi
      exact Nat.lt_succ_of_lt (sys.named d' i hi)
  opened := fun fd o ho => Nat.lt_succ_of_lt (sys.opened fd o ho)

/-- `open`; `none` is -1, with nothing changed. -/
def openAt (d : δ) (flags : Flags) (host : Host) : Option (ℕ × System δ) :=
  if host.permits = false then none
  else
    match sys.fds.lowest with
    | none => none
    | some fd =>
      match h : sys.entry d with
      | none =>
        if flags.creat then
          some (fd, (sys.link d).holdFile fd ⟨sys.next, 0, flags.access⟩ (Nat.lt_succ_self sys.next))
        else none
      | some .device =>
        if flags.creat && flags.excl then none
        else some (fd, sys.hold fd .device fun _ ho => Object.noConfusion ho)
      | some (.file i) =>
        if flags.creat && flags.excl then none
        else
          let opened := sys.holdFile fd ⟨i, 0, flags.access⟩ (sys.named d i h)
          some (fd, if flags.trunc then opened.setData i [] else opened)

def unlink (d : δ) (host : Host) : Bool × System δ :=
  if host.permits && (sys.entry d).isSome then
    (true, { sys with
      entry := Function.update sys.entry d none
      named := by
        intro d' i hi
        by_cases h : d' = d
        · rw [h, Function.update_self] at hi
          cases hi
        · rw [Function.update_of_ne h] at hi
          exact sys.named d' i hi })
  else (false, sys)

variable {sys} {d : δ} {flags : Flags}

lemma openAt_none (h : sys.openAt d flags host = none) :
    host.permits = false ∨ sys.fds.lowest = none ∨
      (if (sys.entry d).isSome then (flags.creat && flags.excl) = true else flags.creat = false) := by
  unfold openAt at h
  by_cases hpermits : host.permits = false
  · exact .inl hpermits
  · rw [if_neg hpermits] at h
    right
    split at h
    · next hlowest => exact .inl hlowest
    · right
      split at h
      · next hd =>
        split_ifs at h with hcreat
        simpa [hd] using hcreat
      · next hd =>
        split_ifs at h with hexcl
        simpa [hd] using hexcl
      · next i hd =>
        by_cases hexcl : (flags.creat && flags.excl) = true
        · simpa [hd] using hexcl
        · rw [if_neg hexcl] at h
          cases h

/-- What `open` makes or gets to. -/
lemma openAt_some {sys' : System δ} (h : sys.openAt d flags host = some (fd, sys')) :
    sys.fds.lowest = some fd ∧
      ((sys.entry d = none ∧ flags.creat = true ∧
          sys' = (sys.link d).holdFile fd ⟨sys.next, 0, flags.access⟩
            (Nat.lt_succ_self sys.next)) ∨
        (sys.entry d = some .device ∧ (flags.creat && flags.excl) = false ∧
          sys' = sys.hold fd .device fun _ ho => Object.noConfusion ho) ∨
        ∃ i, ∃ hi : sys.entry d = some (.file i), (flags.creat && flags.excl) = false ∧
          sys' = if flags.trunc then
              (sys.holdFile fd ⟨i, 0, flags.access⟩ (sys.named d i hi)).setData i []
            else sys.holdFile fd ⟨i, 0, flags.access⟩ (sys.named d i hi)) := by
  unfold openAt at h
  by_cases hpermits : host.permits = false
  · rw [if_pos hpermits] at h
    cases h
  · rw [if_neg hpermits] at h
    split at h
    · cases h
    · next fd' hlowest =>
      split at h
      · next hd =>
        split_ifs at h with hcreat
        simp only [Option.some.injEq, Prod.mk.injEq] at h
        obtain ⟨rfl, rfl⟩ := h
        exact ⟨hlowest, .inl ⟨hd, hcreat, rfl⟩⟩
      · next hd =>
        split_ifs at h with hexcl
        simp only [Option.some.injEq, Prod.mk.injEq] at h
        obtain ⟨rfl, rfl⟩ := h
        exact ⟨hlowest, .inr (.inl ⟨hd, Bool.eq_false_of_not_eq_true hexcl, rfl⟩)⟩
      · next i hd =>
        by_cases hexcl : (flags.creat && flags.excl) = true
        · rw [if_pos hexcl] at h
          cases h
        · rw [if_neg hexcl] at h
          simp only [Option.some.injEq, Prod.mk.injEq] at h
          obtain ⟨rfl, rfl⟩ := h
          exact ⟨hlowest, .inr (.inr ⟨i, hd, Bool.eq_false_of_not_eq_true hexcl, rfl⟩)⟩

end System

end Metroskrew.Library.Descriptors
