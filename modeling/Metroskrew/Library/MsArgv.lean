import Mathlib.Data.List.Basic
import Mathlib.Tactic

/-! Command lines by the rules of the Microsoft C runtime, over any characters, and the escaped form
of a word that these rules read back. -/

namespace Metroskrew.Library.MsArgv

variable {α : Type*} [DecidableEq α]

/-- The characters with a meaning: the blanks between words, the quote and the backslash. -/
structure Marks (α : Type*) where
  isBlank : α → Bool
  quote : α
  slash : α
  quote_ne_slash : quote ≠ slash
  quote_not_blank : isBlank quote = false
  slash_not_blank : isBlank slash = false

def prepend (w : List α) (r : List α × List α) : List α × List α := (w ++ r.1, r.2)

omit [DecidableEq α] in
@[simp] lemma prepend_prepend (w v : List α) (r : List α × List α) :
    prepend w (prepend v r) = prepend (w ++ v) r := by simp [prepend]

omit [DecidableEq α] in
lemma prepend_nil (r : List α × List α) : prepend [] r = r := rfl

variable (m : Marks α)

/-- Reads one word: `inQuotes` says whether a blank belongs to it, and `slashes` counts the
backslashes just read. -/
def readArg (inQuotes : Bool) (slashes : ℕ) : List α → List α × List α
  | [] => (List.replicate slashes m.slash, [])
  | c :: s =>
    if c = m.slash then readArg inQuotes (slashes + 1) s
    else if c = m.quote then
      if slashes % 2 = 0 then
        prepend (List.replicate (slashes / 2) m.slash) (readArg (!inQuotes) 0 s)
      else
        prepend (List.replicate (slashes / 2) m.slash ++ [m.quote]) (readArg inQuotes 0 s)
    else if m.isBlank c = true ∧ inQuotes = false then (List.replicate slashes m.slash, c :: s)
    else prepend (List.replicate slashes m.slash ++ [c]) (readArg inQuotes 0 s)

lemma readArg_length (inQuotes : Bool) (slashes : ℕ) (s : List α) :
    (readArg m inQuotes slashes s).2.length ≤ s.length := by
  fun_induction readArg m inQuotes slashes s with
  | case1 inQuotes slashes => exact le_rfl
  | case2 inQuotes slashes s ih => exact Nat.le_succ_of_le ih
  | case3 inQuotes slashes s hs heven ih => exact Nat.le_succ_of_le ih
  | case4 inQuotes slashes s hs hodd ih => exact Nat.le_succ_of_le ih
  | case5 inQuotes slashes c s hc hq hblank => exact le_rfl
  | case6 inQuotes slashes c s hc hq hblank ih => exact Nat.le_succ_of_le ih

lemma readArg_lt {c : α} (hc : m.isBlank c = false) (s : List α) :
    (readArg m false 0 (c :: s)).2.length < (c :: s).length := by
  have h := fun inQuotes slashes => Nat.lt_succ_of_le (readArg_length m inQuotes slashes s)
  rw [readArg]
  split_ifs with hs hq heven hblank
  · exact h false 1
  · exact h true 0
  · exact h false 0
  · simp [hc] at hblank
  · exact h false 0

/-- The later runtime: a second quote inside quotes stands for itself. -/
def readArgDoubled (inQuotes : Bool) (slashes : ℕ) : List α → List α × List α
  | [] => (List.replicate slashes m.slash, [])
  | c :: s =>
    if c = m.slash then readArgDoubled inQuotes (slashes + 1) s
    else if c = m.quote then
      if slashes % 2 = 0 then
        if inQuotes = true ∧ s.head? = some m.quote then
          prepend (List.replicate (slashes / 2) m.slash ++ [m.quote]) (readArgDoubled true 0 s.tail)
        else prepend (List.replicate (slashes / 2) m.slash) (readArgDoubled (!inQuotes) 0 s)
      else
        prepend (List.replicate (slashes / 2) m.slash ++ [m.quote]) (readArgDoubled inQuotes 0 s)
    else if m.isBlank c = true ∧ inQuotes = false then (List.replicate slashes m.slash, c :: s)
    else prepend (List.replicate slashes m.slash ++ [c]) (readArgDoubled inQuotes 0 s)
termination_by s => s.length
decreasing_by
  all_goals
    simp only [List.length_cons, List.length_tail]
    omega

/-- The rules of either runtime, of a quote inside quotes only while no other follows it. -/
structure Rules (read : Bool → ℕ → List α → List α × List α) : Prop where
  finish : ∀ inQuotes k, read inQuotes k [] = (List.replicate k m.slash, [])
  slash : ∀ inQuotes k s, read inQuotes k (m.slash :: s) = read inQuotes (k + 1) s
  escaped : ∀ inQuotes k s, k % 2 = 1 → read inQuotes k (m.quote :: s) =
    prepend (List.replicate (k / 2) m.slash ++ [m.quote]) (read inQuotes 0 s)
  opening : ∀ k s, k % 2 = 0 →
    read false k (m.quote :: s) = prepend (List.replicate (k / 2) m.slash) (read true 0 s)
  closing : ∀ k s, k % 2 = 0 → s.head? ≠ some m.quote →
    read true k (m.quote :: s) = prepend (List.replicate (k / 2) m.slash) (read false 0 s)
  blank : ∀ k c s, m.isBlank c = true → read false k (c :: s) = (List.replicate k m.slash, c :: s)
  plain : ∀ inQuotes k c s, c ≠ m.slash → c ≠ m.quote → (m.isBlank c = true → inQuotes = true) →
    read inQuotes k (c :: s) = prepend (List.replicate k m.slash ++ [c]) (read inQuotes 0 s)

def parseArgs (s : List α) : List (List α) :=
  match _ : s.dropWhile m.isBlank with
  | [] => []
  | c :: t => (readArg m false 0 (c :: t)).1 :: parseArgs (readArg m false 0 (c :: t)).2
termination_by s.length
decreasing_by
  have hc : m.isBlank c = false := by
    have := List.head?_dropWhile_not m.isBlank s
    simpa [*] using this
  have hle := (List.dropWhile_suffix m.isBlank (l := s)).length_le
  simp only [*] at hle
  exact Nat.lt_of_lt_of_le (readArg_lt m hc t) hle

/-- The program's name, up to the closing quote or a blank; a backslash means nothing in it. -/
def readProgram : List α → List α × List α
  | [] => ([], [])
  | c :: s =>
    if c = m.quote then (s.takeWhile (· ≠ m.quote), (s.dropWhile (· ≠ m.quote)).tail)
    else ((c :: s).takeWhile (!m.isBlank ·), (c :: s).dropWhile (!m.isBlank ·))

def parseCommandLine (s : List α) : List (List α) :=
  (readProgram m s).1 :: parseArgs m (readProgram m s).2

/-- A word with the backslashes doubled that stand before a quote or at the end, `slashes` of them
being written already. -/
def escape (slashes : ℕ) : List α → List α
  | [] => List.replicate slashes m.slash
  | c :: a =>
    if c = m.slash then c :: escape (slashes + 1) a
    else if c = m.quote then List.replicate (slashes + 1) m.slash ++ c :: escape 0 a
    else c :: escape 0 a

def quoteWord (a : List α) : List α := m.quote :: (escape m 0 a ++ [m.quote])

def Separated (s : List α) : Prop := s = [] ∨ ∃ c t, s = c :: t ∧ m.isBlank c = true

variable {m}

lemma parseArgs_blank {c : α} (hc : m.isBlank c = true) (s : List α) :
    parseArgs m (c :: s) = parseArgs m s := by
  rw [parseArgs, parseArgs, List.dropWhile_cons_of_pos hc]

lemma parseArgs_cons {c : α} (hc : m.isBlank c = false) (s : List α) :
    parseArgs m (c :: s) =
      (readArg m false 0 (c :: s)).1 :: parseArgs m (readArg m false 0 (c :: s)).2 := by
  have hdrop : (c :: s).dropWhile m.isBlank = c :: s := by simp [hc]
  rw [parseArgs]
  split
  · rename_i hnil
    rw [hdrop] at hnil
    cases hnil
  · rename_i d t hcons
    rw [hdrop] at hcons
    cases hcons
    rfl

lemma parseArgs_nil : parseArgs m [] = [] := by
  rw [parseArgs]
  rfl

omit [DecidableEq α] in
lemma blank_ne {c : α} (hc : m.isBlank c = true) : c ≠ m.slash ∧ c ≠ m.quote :=
  ⟨fun he => by simp [he, m.slash_not_blank] at hc, fun he => by simp [he, m.quote_not_blank] at hc⟩

lemma readArg_rules : Rules m (readArg m) where
  finish _ _ := rfl
  slash inQuotes k s := by rw [readArg, if_pos rfl]
  escaped inQuotes k s hodd := by
    rw [readArg, if_neg m.quote_ne_slash, if_pos rfl, if_neg (by omega)]
  opening k s heven := by
    rw [readArg, if_neg m.quote_ne_slash, if_pos rfl, if_pos heven, Bool.not_false]
  closing k s heven _ := by
    rw [readArg, if_neg m.quote_ne_slash, if_pos rfl, if_pos heven, Bool.not_true]
  blank k c s hc := by
    rw [readArg, if_neg (blank_ne hc).1, if_neg (blank_ne hc).2, if_pos ⟨hc, rfl⟩]
  plain inQuotes k c s hs hq hblank := by
    rw [readArg, if_neg hs, if_neg hq, if_neg fun h => by simp [hblank h.1] at h]

lemma readArgDoubled_rules : Rules m (readArgDoubled m) where
  finish _ _ := by rw [readArgDoubled]
  slash inQuotes k s := by rw [readArgDoubled, if_pos rfl]
  escaped inQuotes k s hodd := by
    rw [readArgDoubled, if_neg m.quote_ne_slash, if_pos rfl, if_neg (by omega)]
  opening k s heven := by
    rw [readArgDoubled, if_neg m.quote_ne_slash, if_pos rfl, if_pos heven, if_neg (by simp),
      Bool.not_false]
  closing k s heven hnext := by
    rw [readArgDoubled, if_neg m.quote_ne_slash, if_pos rfl, if_pos heven, if_neg fun h => hnext h.2,
      Bool.not_true]
  blank k c s hc := by
    rw [readArgDoubled, if_neg (blank_ne hc).1, if_neg (blank_ne hc).2, if_pos ⟨hc, rfl⟩]
  plain inQuotes k c s hs hq hblank := by
    rw [readArgDoubled, if_neg hs, if_neg hq, if_neg fun h => by simp [hblank h.1] at h]

section Reading

variable {read : Bool → ℕ → List α → List α × List α} (h : Rules m read)

include h in
omit [DecidableEq α] in
lemma Rules.read_slashes (inQuotes : Bool) (k n : ℕ) (s : List α) :
    read inQuotes k (List.replicate n m.slash ++ s) = read inQuotes (k + n) s := by
  induction n generalizing k with
  | zero => rfl
  | succ n ih =>
    rw [List.replicate_succ, List.cons_append, h.slash, ih]
    congr 1
    omega

include h in
omit [DecidableEq α] in
lemma Rules.read_separated (k : ℕ) {s : List α} (hs : Separated m s) :
    read false k s = (List.replicate k m.slash, s) := by
  rcases hs with rfl | ⟨c, t, rfl, hc⟩
  · exact h.finish false k
  · exact h.blank k c t hc

include h in
/-- Inside quotes, with `k` backslashes written before it, the escaped word is read back. -/
lemma Rules.read_escape (k : ℕ) (a : List α) {rest : List α} (hrest : rest.head? ≠ some m.quote) :
    read true k (escape m k a ++ m.quote :: rest) =
      prepend (List.replicate k m.slash ++ a) (read false 0 rest) := by
  fun_induction escape m k a with
  | case1 k =>
    have heven : (k + k) % 2 = 0 := by omega
    have hhalf : (k + k) / 2 = k := by omega
    rw [h.read_slashes, h.closing _ _ heven hrest, hhalf, List.append_nil]
  | case2 k a ih =>
    rw [List.cons_append, h.slash, ih, List.replicate_succ']
    simp
  | case3 k a hs ih =>
    have hodd : (k + (k + 1)) % 2 = 1 := by omega
    have hhalf : (k + (k + 1)) / 2 = k := by omega
    rw [List.append_assoc, List.cons_append, h.read_slashes, h.escaped _ _ _ hodd, hhalf, ih]
    simp
  | case4 k c a hs hq ih =>
    rw [List.cons_append, h.plain _ _ _ _ hs hq (fun _ => rfl), ih]
    simp

include h in
/-- The word is read, and the reader is outside quotes with no backslash before it. -/
lemma Rules.read_quoteWord (a : List α) {rest : List α} (hrest : rest.head? ≠ some m.quote) :
    read false 0 (quoteWord m a ++ rest) = prepend a (read false 0 rest) := by
  have hbody := h.read_escape 0 a hrest
  rw [quoteWord, List.cons_append, h.opening _ _ rfl, List.append_assoc,
    List.singleton_append, hbody]
  simp

end Reading

omit [DecidableEq α] in
lemma Separated.head_ne {s : List α} (hs : Separated m s) : s.head? ≠ some m.quote := by
  rcases hs with rfl | ⟨c, t, rfl, hc⟩
  · simp
  · simpa using (blank_ne hc).2

lemma readArg_separated (k : ℕ) {s : List α} (hs : Separated m s) :
    readArg m false k s = (List.replicate k m.slash, s) := readArg_rules.read_separated k hs

lemma readArg_quoteWord (a : List α) {rest : List α} (hs : Separated m rest) :
    readArg m false 0 (quoteWord m a ++ rest) = (a, rest) := by
  rw [readArg_rules.read_quoteWord a hs.head_ne, readArg_separated 0 hs]
  simp [prepend]

lemma readArg_clean (k : ℕ) {a rest : List α} (hblank : ∀ c ∈ a, m.isBlank c = false)
    (hquote : m.quote ∉ a) (h : Separated m rest) :
    readArg m false k (a ++ rest) = (List.replicate k m.slash ++ a, rest) := by
  induction a generalizing k with
  | nil => simpa using readArg_separated k h
  | cons c a ih =>
    have ih := fun j => ih (k := j) (fun d hd => hblank d (List.mem_cons_of_mem c hd))
      (fun hd => hquote (List.mem_cons_of_mem c hd))
    have hc := hblank c List.mem_cons_self
    have hq : c ≠ m.quote := fun he => hquote (he ▸ List.mem_cons_self)
    rw [List.cons_append, readArg]
    split_ifs with hs
    · subst hs
      rw [ih, List.replicate_succ']
      simp
    · simp [hc] at *
    · rw [ih]
      simp [prepend]

lemma quote_mem_escape {k : ℕ} {a : List α} (h : m.quote ∈ escape m k a) : m.quote ∈ a := by
  fun_induction escape m k a with
  | case1 k => exact absurd (List.eq_of_mem_replicate h) m.quote_ne_slash
  | case2 k a ih =>
    exact List.mem_cons_of_mem _ (ih ((List.mem_cons.mp h).resolve_left m.quote_ne_slash))
  | case3 k a hs ih => exact List.mem_cons_self
  | case4 k c a hs hq ih =>
    exact List.mem_cons_of_mem _ (ih ((List.mem_cons.mp h).resolve_left (Ne.symm hq)))

lemma escape_eq_self {a : List α} (hquote : m.quote ∉ a) (k : ℕ) :
    escape m k a = a ↔ (a = [] → k = 0) ∧ a.getLast? ≠ some m.slash := by
  fun_induction escape m k a with
  | case1 k => simp
  | case2 k a ih =>
    have ih := ih fun h => hquote (List.mem_cons_of_mem _ h)
    cases a with
    | nil => simp [escape]
    | cons d a => simpa using ih
  | case3 k a hs ih => exact absurd List.mem_cons_self hquote
  | case4 k c a hs hq ih =>
    have ih := ih fun h => hquote (List.mem_cons_of_mem _ h)
    cases a with
    | nil => simp [escape, hs]
    | cons d a => simpa using ih

lemma readProgram_quoted {a : List α} (hquote : m.quote ∉ a) (rest : List α) :
    readProgram m (m.quote :: (a ++ m.quote :: rest)) = (a, rest) := by
  have hall : ∀ c ∈ a, (decide (c ≠ m.quote)) = true := by
    intro c hc
    simpa using fun he : c = m.quote => hquote (he ▸ hc)
  rw [readProgram, if_pos rfl, List.takeWhile_append_of_pos hall, List.dropWhile_append_of_pos hall]
  simp

lemma readProgram_clean {a rest : List α} (hblank : ∀ c ∈ a, m.isBlank c = false)
    (hquote : m.quote ∉ a) (h : Separated m rest) : readProgram m (a ++ rest) = (a, rest) := by
  have hall : ∀ c ∈ a, (!m.isBlank c) = true := fun c hc => by simp [hblank c hc]
  have hrest : rest.takeWhile (!m.isBlank ·) = [] ∧ rest.dropWhile (!m.isBlank ·) = rest := by
    rcases h with rfl | ⟨c, t, rfl, hc⟩ <;> simp [*]
  have hhead : ∀ c t, a ++ rest = c :: t → c ≠ m.quote := by
    rintro c t heq rfl
    cases a with
    | nil =>
      rcases h with rfl | ⟨d, u, rfl, hd⟩
      · cases heq
      · cases heq
        simp [m.quote_not_blank] at hd
    | cons d a =>
      cases heq
      exact hquote List.mem_cons_self
  have hread : readProgram m (a ++ rest) =
      ((a ++ rest).takeWhile (!m.isBlank ·), (a ++ rest).dropWhile (!m.isBlank ·)) := by
    cases heq : a ++ rest with
    | nil => rfl
    | cons c t => exact if_neg (hhead c t heq)
  rw [hread, List.takeWhile_append_of_pos hall, List.dropWhile_append_of_pos hall, hrest.1, hrest.2,
    List.append_nil]

/-- Without blanks a word is read to its end; every quote in it makes the result shorter. -/
lemma readArg_word (inQuotes : Bool) (k : ℕ) {a : List α} (hblank : ∀ c ∈ a, m.isBlank c = false) :
    ∃ w inQuotes' k', (∀ rest, readArg m inQuotes k (a ++ rest) =
        prepend w (readArg m inQuotes' k' rest)) ∧
      w.length + k' ≤ a.length + k ∧ (m.quote ∈ a → w.length + k' < a.length + k) := by
  induction a generalizing inQuotes k with
  | nil => exact ⟨[], inQuotes, k, fun rest => (prepend_nil _).symm, by simp, by simp⟩
  | cons c a ih =>
    have ih := fun q j => ih q j fun d hd => hblank d (List.mem_cons_of_mem c hd)
    have hc := hblank c List.mem_cons_self
    by_cases hs : c = m.slash
    · obtain ⟨w, q', k', hread, hle, hlt⟩ := ih inQuotes (k + 1)
      refine ⟨w, q', k', fun rest => ?_, ?_, fun hq => ?_⟩
      · rw [List.cons_append, readArg, if_pos hs, hread]
      · rw [List.length_cons]
        omega
      · have := hlt ((List.mem_cons.mp hq).resolve_left fun he => m.quote_ne_slash (he.trans hs))
        rw [List.length_cons]
        omega
    · by_cases hq : c = m.quote
      · -- the quote itself is dropped, or takes the place of a backslash
        have hdrop : ∀ q v, v.length + 1 ≤ k + 1 →
            (∀ rest, readArg m inQuotes k (c :: a ++ rest) = prepend v (readArg m q 0 (a ++ rest))) →
            ∃ w q' k', (∀ rest, readArg m inQuotes k (c :: a ++ rest) =
                prepend w (readArg m q' k' rest)) ∧ w.length + k' < (c :: a).length + k := by
          intro q v hv hstep
          obtain ⟨w, q', k', hread, hle, _⟩ := ih q 0
          refine ⟨v ++ w, q', k', fun rest => ?_, ?_⟩
          · rw [hstep, hread, prepend_prepend]
          · rw [List.length_append, List.length_cons]
            omega
        have hword : ∃ w q' k', (∀ rest, readArg m inQuotes k (c :: a ++ rest) =
            prepend w (readArg m q' k' rest)) ∧ w.length + k' < (c :: a).length + k := by
          by_cases heven : k % 2 = 0
          · refine hdrop (!inQuotes) (List.replicate (k / 2) m.slash) ?_ fun rest => ?_
            · rw [List.length_replicate]
              omega
            · rw [List.cons_append, readArg, if_neg hs, if_pos hq, if_pos heven]
          · refine hdrop inQuotes (List.replicate (k / 2) m.slash ++ [m.quote]) ?_ fun rest => ?_
            · rw [List.length_append, List.length_replicate, List.length_singleton]
              omega
            · rw [List.cons_append, readArg, if_neg hs, if_pos hq, if_neg heven]
        obtain ⟨w, q', k', hread, hlt⟩ := hword
        exact ⟨w, q', k', hread, hlt.le, fun _ => hlt⟩
      · obtain ⟨w, q', k', hread, hle, hlt⟩ := ih inQuotes 0
        refine ⟨List.replicate k m.slash ++ [c] ++ w, q', k', fun rest => ?_, ?_, fun hmem => ?_⟩
        · rw [List.cons_append, readArg, if_neg hs, if_neg hq, if_neg (by simp [hc]), hread,
            prepend_prepend]
        · simp only [List.length_append, List.length_replicate, List.length_cons, List.length_nil]
          omega
        · have := hlt ((List.mem_cons.mp hmem).resolve_left fun he => hq he.symm)
          simp only [List.length_append, List.length_replicate, List.length_cons, List.length_nil]
          omega

end Metroskrew.Library.MsArgv
