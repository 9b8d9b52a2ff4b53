import Mathlib.Data.List.Basic
import Mathlib.Tactic

/-! An assembler that sorts what its lines emit into named sections, and a linker that puts sections
at addresses. -/

namespace Metroskrew.Library.Linking

variable {α ν σ β : Type*}

/-- What a line of the text does: it goes on in another section, or it sets a symbol to where it
stands and emits bytes. -/
structure Assembler (α ν σ β : Type*) where
  switch : α → Option ν
  symbol : α → Option σ
  emit : α → List β

namespace Assembler

variable (m : Assembler α ν σ β)

def emitted (lines : List α) : List β := lines.flatMap m.emit

/-- The symbols of lines of one section, of which `pos` bytes are there already. -/
def symbolsFrom : ℕ → List α → List (σ × ℕ)
  | _, [] => []
  | pos, line :: lines =>
    ((m.symbol line).map fun s => (s, pos)).toList ++
      symbolsFrom (pos + (m.emit line).length) lines

section Sections

variable [DecidableEq ν]

/-- The bytes of section `name`; the text starts in section `cur`. -/
def contents (name : ν) : ν → List α → List β
  | _, [] => []
  | cur, line :: lines =>
    match m.switch line with
    | some next => contents name next lines
    | none => (if cur = name then m.emit line else []) ++ contents name cur lines

/-- The symbols of section `name`, with their offsets in it. -/
def symbols (name : ν) : ν → ℕ → List α → List (σ × ℕ)
  | _, _, [] => []
  | cur, pos, line :: lines =>
    match m.switch line with
    | some next => symbols name next pos lines
    | none =>
      if cur = name then
        ((m.symbol line).map fun s => (s, pos)).toList ++
          symbols name cur (pos + (m.emit line).length) lines
      else symbols name cur pos lines

end Sections

/-- Lines that stay in their section. -/
def Plain (lines : List α) : Prop := ∀ line ∈ lines, m.switch line = none

/-- Lines that leave no trace. -/
def Quiet (lines : List α) : Prop :=
  ∀ line ∈ lines, m.switch line = none ∧ m.symbol line = none ∧ m.emit line = []

/-- The lines of one section, with what is said in front of it. -/
structure Chunk (α ν : Type*) where
  before : List α
  name : ν
  head : α
  body : List α

def Chunk.lines (c : Chunk α ν) : List α := c.before ++ c.head :: c.body

structure Chunk.Opens (c : Chunk α ν) : Prop where
  quiet : m.Quiet c.before
  switch : m.switch c.head = some c.name
  plain : m.Plain c.body

variable {m}

lemma emitted_cons (line : α) (lines : List α) :
    m.emitted (line :: lines) = m.emit line ++ m.emitted lines := List.flatMap_cons

lemma symbolsFrom_append (pos : ℕ) (xs ys : List α) :
    m.symbolsFrom pos (xs ++ ys) =
      m.symbolsFrom pos xs ++ m.symbolsFrom (pos + (m.emitted xs).length) ys := by
  induction xs generalizing pos with
  | nil => rfl
  | cons line xs ih =>
    rw [List.cons_append, symbolsFrom, symbolsFrom, ih, List.append_assoc, emitted_cons,
      List.length_append, Nat.add_assoc]

lemma Plain.cons {line : α} {lines : List α} (h : m.Plain (line :: lines)) :
    m.switch line = none ∧ m.Plain lines :=
  ⟨h line List.mem_cons_self, fun l hl => h l (List.mem_cons_of_mem line hl)⟩

lemma Quiet.plain {lines : List α} (h : m.Quiet lines) : m.Plain lines := fun line hl => (h line hl).1

lemma Quiet.emitted {lines : List α} (h : m.Quiet lines) : m.emitted lines = [] :=
  List.flatMap_eq_nil_iff.mpr fun line hl => (h line hl).2.2

lemma Quiet.symbolsFrom {lines : List α} (h : m.Quiet lines) (pos : ℕ) :
    m.symbolsFrom pos lines = [] := by
  induction lines generalizing pos with
  | nil => rfl
  | cons line lines ih =>
    rw [Assembler.symbolsFrom, (h line List.mem_cons_self).2.1,
      ih fun l hl => h l (List.mem_cons_of_mem line hl)]
    rfl

section Sections

variable [DecidableEq ν]

/-- Only what is emitted for the lines at hand matters. -/
lemma contents_congr {m' : Assembler α ν σ β} {lines : List α} (hswitch : m.switch = m'.switch)
    (hemit : ∀ line ∈ lines, m.emit line = m'.emit line) (name cur : ν) :
    m.contents name cur lines = m'.contents name cur lines := by
  induction lines generalizing cur with
  | nil => rfl
  | cons line lines ih =>
    have hrest := ih fun l hl => hemit l (List.mem_cons_of_mem line hl)
    rw [contents, contents, hswitch]
    cases m'.switch line with
    | some next => exact hrest next
    | none =>
      dsimp only
      rw [hemit line List.mem_cons_self, hrest cur]

lemma symbols_congr {m' : Assembler α ν σ β} {lines : List α} (hswitch : m.switch = m'.switch)
    (hsymbol : m.symbol = m'.symbol) (hemit : ∀ line ∈ lines, m.emit line = m'.emit line)
    (name cur : ν) (pos : ℕ) : m.symbols name cur pos lines = m'.symbols name cur pos lines := by
  induction lines generalizing cur pos with
  | nil => rfl
  | cons line lines ih =>
    have hrest := ih fun l hl => hemit l (List.mem_cons_of_mem line hl)
    rw [symbols, symbols, hswitch, hsymbol, hemit line List.mem_cons_self]
    cases m'.switch line with
    | some next => exact hrest next pos
    | none =>
      dsimp only
      split_ifs
      · rw [hrest]
      · exact hrest cur pos

lemma contents_plain {lines : List α} (h : m.Plain lines) (name cur : ν) (rest : List α) :
    m.contents name cur (lines ++ rest) =
      (if cur = name then m.emitted lines else []) ++ m.contents name cur rest := by
  induction lines with
  | nil => simp [emitted]
  | cons line lines ih =>
    obtain ⟨hline, hlines⟩ := h.cons
    simp only [List.cons_append, contents, hline, ih hlines]
    split_ifs
    · rw [emitted_cons, List.append_assoc]
    · rfl

lemma symbols_plain {lines : List α} (h : m.Plain lines) (name cur : ν) (pos : ℕ) (rest : List α) :
    m.symbols name cur pos (lines ++ rest) =
      if cur = name then
        m.symbolsFrom pos lines ++ m.symbols name cur (pos + (m.emitted lines).length) rest
      else m.symbols name cur pos rest := by
  induction lines generalizing pos with
  | nil => simp [emitted, symbolsFrom]
  | cons line lines ih =>
    obtain ⟨hline, hlines⟩ := h.cons
    simp only [List.cons_append, symbols, hline]
    split_ifs with hcur
    · rw [ih hlines, if_pos hcur, symbolsFrom, List.append_assoc, emitted_cons,
        List.length_append, Nat.add_assoc]
    · rw [ih hlines, if_neg hcur]

lemma Chunk.Opens.contents {c : Chunk α ν} (h : c.Opens m) (name cur : ν) (rest : List α) :
    m.contents name cur (c.lines ++ rest) =
      (if c.name = name then m.emitted c.body else []) ++ m.contents name c.name rest := by
  rw [Chunk.lines, List.append_assoc, contents_plain h.quiet.plain, h.quiet.emitted, ite_self,
    List.nil_append, List.cons_append, Assembler.contents, h.switch]
  exact contents_plain h.plain name c.name rest

lemma Chunk.Opens.symbols {c : Chunk α ν} (h : c.Opens m) (name cur : ν) (pos : ℕ)
    (rest : List α) :
    m.symbols name cur pos (c.lines ++ rest) =
      if c.name = name then
        m.symbolsFrom pos c.body ++ m.symbols name c.name (pos + (m.emitted c.body).length) rest
      else m.symbols name c.name pos rest := by
  rw [Chunk.lines, List.append_assoc, symbols_plain h.quiet.plain, h.quiet.emitted,
    h.quiet.symbolsFrom, List.nil_append, List.length_nil, Nat.add_zero, ite_self, List.cons_append,
    Assembler.symbols, h.switch]
  exact symbols_plain h.plain name c.name pos rest

variable {chunks : List (Chunk α ν)} {name : ν}

/-- A section none of the chunks is for stays as it is. -/
lemma chunks_other (h : ∀ c ∈ chunks, c.Opens m) (hname : ∀ c ∈ chunks, c.name ≠ name) {cur : ν}
    (hcur : cur ≠ name) (pos : ℕ) :
    m.contents name cur (chunks.flatMap Chunk.lines) = [] ∧
      m.symbols name cur pos (chunks.flatMap Chunk.lines) = [] := by
  induction chunks generalizing cur with
  | nil => exact ⟨rfl, rfl⟩
  | cons c chunks ih =>
    have hne := hname c List.mem_cons_self
    have hopens := h c List.mem_cons_self
    obtain ⟨hc, hs⟩ := ih (fun d hd => h d (List.mem_cons_of_mem c hd))
      (fun d hd => hname d (List.mem_cons_of_mem c hd)) hne
    rw [List.flatMap_cons, hopens.contents, hopens.symbols, if_neg hne, if_neg hne]
    exact ⟨hc, hs⟩

lemma chunks_section_aux (h : ∀ c ∈ chunks, c.Opens m) (hnames : (chunks.map Chunk.name).Nodup)
    {c : Chunk α ν} (hc : c ∈ chunks) {cur : ν} (hcur : cur ≠ c.name) :
    m.contents c.name cur (chunks.flatMap Chunk.lines) = m.emitted c.body ∧
      m.symbols c.name cur 0 (chunks.flatMap Chunk.lines) = m.symbolsFrom 0 c.body := by
  induction chunks generalizing cur with
  | nil => cases hc
  | cons d chunks ih =>
    have hopens := h d List.mem_cons_self
    have hrest : ∀ e ∈ chunks, e.Opens m := fun e he => h e (List.mem_cons_of_mem d he)
    rw [List.map_cons, List.nodup_cons] at hnames
    rw [List.flatMap_cons, hopens.contents, hopens.symbols]
    rcases List.mem_cons.mp hc with rfl | hc
    · have hothers : ∀ e ∈ chunks, e.name ≠ c.name :=
        fun e he heq => hnames.1 (heq ▸ List.mem_map_of_mem he)
      rw [if_pos rfl, if_pos rfl]
      -- back in section `c` only for the quiet lines in front of the next one
      cases chunks with
      | nil => simp [Assembler.contents, Assembler.symbols]
      | cons e chunks =>
        have hne := hothers e List.mem_cons_self
        have hopense := hrest e List.mem_cons_self
        obtain ⟨hcont, hsym⟩ := chunks_other (fun x hx => hrest x (List.mem_cons_of_mem e hx))
          (fun x hx => hothers x (List.mem_cons_of_mem e hx)) hne
          (0 + (m.emitted c.body).length)
        rw [List.flatMap_cons, hopense.contents, hopense.symbols, if_neg hne, if_neg hne, hcont,
          hsym, List.append_nil, List.append_nil, List.append_nil]
        exact ⟨rfl, rfl⟩
    · have hne : d.name ≠ c.name := fun heq => hnames.1 (heq ▸ List.mem_map_of_mem hc)
      rw [if_neg hne, if_neg hne, List.nil_append]
      exact ih hrest hnames.2 hc hne

/-- With a chunk for each section, a section is what its chunk says. -/
theorem chunks_section {start : List α} (hstart : m.Quiet start) (h : ∀ c ∈ chunks, c.Opens m)
    (hnames : (chunks.map Chunk.name).Nodup) {c : Chunk α ν} (hc : c ∈ chunks) {cur : ν}
    (hcur : cur ≠ c.name) :
    m.contents c.name cur (start ++ chunks.flatMap Chunk.lines) = m.emitted c.body ∧
      m.symbols c.name cur 0 (start ++ chunks.flatMap Chunk.lines) = m.symbolsFrom 0 c.body := by
  rw [contents_plain hstart.plain, symbols_plain hstart.plain, if_neg hcur, if_neg hcur,
    List.nil_append]
  exact chunks_section_aux h hnames hc hcur

end Sections

end Assembler

/-- A section in memory. -/
structure Placement (β : Type*) where
  address : ℕ
  bytes : List β
  deriving Repr, DecidableEq

namespace Placement

def Covers (p : Placement β) (a : ℕ) : Prop := p.address ≤ a ∧ a < p.address + p.bytes.length

instance (p : Placement β) (a : ℕ) : Decidable (p.Covers a) :=
  inferInstanceAs (Decidable (_ ∧ _))

end Placement

def memory (ps : List (Placement β)) (a : ℕ) : Option β :=
  match ps.find? fun p => p.Covers a with
  | none => none
  | some p => p.bytes[a - p.address]?

/-- An address that one section covers alone holds that section's byte. -/
theorem memory_of_mem {ps : List (Placement β)} {p : Placement β} (hp : p ∈ ps) {i : ℕ}
    (hi : i < p.bytes.length) (halone : ∀ q ∈ ps, q.Covers (p.address + i) → q = p) :
    memory ps (p.address + i) = p.bytes[i]? := by
  have hcovers : p.Covers (p.address + i) := ⟨Nat.le_add_right _ _, by omega⟩
  rw [memory]
  cases hf : ps.find? fun q => decide (q.Covers (p.address + i)) with
  | none => exact absurd hcovers (by simpa using List.find?_eq_none.mp hf p hp)
  | some q =>
    have hq : q.Covers (p.address + i) := by simpa using List.find?_some hf
    obtain rfl := halone q (List.mem_of_find?_eq_some hf) hq
    simp only [Nat.add_sub_cancel_left]

/-- Sections that do not cover an address do not say what is there. -/
lemma memory_append {ps qs : List (Placement β)} {a : ℕ} (h : ∀ p ∈ ps, ¬ p.Covers a) :
    memory (ps ++ qs) a = memory qs a := by
  have hnone : ps.find? (fun p => decide (p.Covers a)) = none := by
    apply List.find?_eq_none.mpr
    intro p hp
    simpa using h p hp
  rw [memory, memory, List.find?_append, hnone, Option.none_or]

end Metroskrew.Library.Linking
