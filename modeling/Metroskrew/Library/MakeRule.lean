import Mathlib.Data.List.Nodup
import Mathlib.Tactic

/-! Reading makefile text that holds rules only: continuation lines are joined, a rule is a line with
one colon, and its targets and prerequisites are separated by blanks. -/

namespace Metroskrew.Library.MakeRule

/-- The characters with a meaning of their own; a line that begins with `tab` is a recipe, and one
with a `reserved` character is more than a plain rule. -/
structure Marks (α : Type*) where
  newline : α
  cont : α
  colon : α
  space : α
  tab : α
  reserved : List α
  nodup : (newline :: cont :: colon :: space :: tab :: reserved).Nodup

structure Rule (α : Type*) where
  targets : List (List α)
  prereqs : List (List α)

variable {α : Type*} [DecidableEq α] (m : Marks α)

def Marks.all : List α := m.newline :: m.cont :: m.colon :: m.space :: m.tab :: m.reserved

def Marks.blank (c : α) : Bool := c = m.space ∨ c = m.tab

def join : List α → List α
  | [] => []
  | [c] => [c]
  | c :: d :: s => if c = m.cont ∧ d = m.newline then m.space :: join s else c :: join (d :: s)

def words (line : List α) : List (List α) := (line.splitOnP m.blank).filter (· ≠ [])

def readRule (line : List α) : Option (Rule α) :=
  if line.head? = some m.tab ∨ ∃ c ∈ m.reserved, c ∈ line then none
  else
    match line.splitOn m.colon with
    | [targets, prereqs] => some ⟨words m targets, words m prereqs⟩
    | _ => none

/-- The rules of a text, if there is nothing else in it but blank lines. -/
def readRules (text : List α) : Option (List (Rule α)) :=
  (((join m text).splitOn m.newline).filter fun line => ¬ ∀ c ∈ line, m.blank c).mapM (readRule m)

def continued : List (List α) → List α
  | [] => []
  | l :: ls => l ++ (if ls = [] then [] else [m.cont]) ++ m.newline :: continued ls

/-- A rule with some of its prerequisites on the first line, and one on each line after it. -/
def ruleLines (target : List α) (first rest : List (List α)) : List (List α) :=
  (target ++ m.colon :: m.space :: first.flatMap (· ++ [m.space])) ::
    rest.map fun w => m.tab :: (w ++ [m.space])

structure IsWord (w : List α) : Prop where
  ne_nil : w ≠ []
  clean : ∀ c ∈ w, c ∉ m.all

variable {m}

omit [DecidableEq α] in
lemma IsWord.newline {w : List α} (hw : IsWord m w) : m.newline ∉ w :=
  fun h => hw.clean _ h (by simp [Marks.all])

omit [DecidableEq α] in
lemma IsWord.cont {w : List α} (hw : IsWord m w) : m.cont ∉ w :=
  fun h => hw.clean _ h (by simp [Marks.all])

omit [DecidableEq α] in
lemma IsWord.colon {w : List α} (hw : IsWord m w) : m.colon ∉ w :=
  fun h => hw.clean _ h (by simp [Marks.all])

omit [DecidableEq α] in
lemma IsWord.reserved {w : List α} (hw : IsWord m w) {c : α} (hc : c ∈ m.reserved) : c ∉ w :=
  fun h => hw.clean _ h (by simp [Marks.all, hc])

lemma IsWord.not_blank {w : List α} (hw : IsWord m w) {c : α} (hc : c ∈ w) : m.blank c = false := by
  have := hw.clean c hc
  simp only [Marks.all, List.mem_cons, not_or] at this
  simp [Marks.blank, this]

lemma join_cons {c : α} (hc : c ≠ m.cont) (s : List α) : join m (c :: s) = c :: join m s := by
  cases s with
  | nil => rfl
  | cons d s => simp [join, hc]

lemma join_append {s : List α} (hs : m.cont ∉ s) (t : List α) : join m (s ++ t) = s ++ join m t := by
  induction s with
  | nil => rfl
  | cons c s ih =>
    rw [List.mem_cons, not_or] at hs
    rw [List.cons_append, join_cons (Ne.symm hs.1), ih hs.2, List.cons_append]

lemma join_continued {l : List α} {ls : List (List α)} (h : ∀ k ∈ l :: ls, m.cont ∉ k) :
    join m (continued m (l :: ls)) = l ++ ls.flatMap (m.space :: ·) ++ [m.newline] := by
  have hne : m.newline ≠ m.cont := by
    intro he
    simpa [he] using m.nodup
  induction ls generalizing l with
  | nil =>
    rw [continued, if_pos rfl, List.append_nil, join_append (h l List.mem_cons_self), join_cons hne]
    simp [continued, join]
  | cons l' ls ih =>
    rw [continued, if_neg (List.cons_ne_nil l' ls), List.append_assoc,
      join_append (h l List.mem_cons_self), List.singleton_append, join, if_pos ⟨rfl, rfl⟩,
      ih fun k hk => h k (List.mem_cons_of_mem l hk)]
    simp

/-- The lines of the text are the given ones, with the mark for continuation on all but the last. -/
lemma splitOn_continued (ls : List (List α)) (h : ∀ k ∈ ls, m.newline ∉ k) :
    ((continued m ls).splitOn m.newline).length = ls.length + 1 ∧
      ∀ i line, ((continued m ls).splitOn m.newline)[i]? = some line →
        ((∀ k ∈ ls, m.cont ∉ k) → (line.getLast? = some m.cont ↔ i + 1 < ls.length)) := by
  have hne : m.newline ≠ m.cont := by
    intro he
    simpa [he] using m.nodup
  induction ls with
  | nil =>
    refine ⟨rfl, fun i line hline _ => ?_⟩
    cases i with
    | zero =>
      cases hline
      simp
    | succ i => cases hline
  | cons l ls ih =>
    obtain ⟨hlen, hlines⟩ := ih fun k hk => h k (List.mem_cons_of_mem l hk)
    have hl : m.newline ∉ l ++ (if ls = [] then [] else [m.cont]) := by
      rw [List.mem_append, not_or]
      refine ⟨h l List.mem_cons_self, ?_⟩
      split_ifs
      · exact List.not_mem_nil
      · simpa using hne
    rw [continued, List.splitOn_append_cons_self_of_not_mem hl]
    refine ⟨by simp [hlen], fun i line hline hcont => ?_⟩
    cases i with
    | zero =>
      cases hline
      have hlast : l.getLast? ≠ some m.cont :=
        fun he => hcont l List.mem_cons_self (List.mem_of_getLast? he)
      by_cases hls : ls = []
      · simp [hls, hlast]
      · simp [hls, List.length_pos_iff]
    | succ i =>
      rw [hlines i line hline fun k hk => hcont k (List.mem_cons_of_mem l hk), List.length_cons]
      omega

lemma words_append_blank (s t : List α) {c : α} (hc : m.blank c = true) :
    words m (s ++ c :: t) = words m s ++ words m t := by
  rw [words, List.splitOnP_append_cons s t hc, List.filter_append]
  rfl

lemma words_cons_blank (t : List α) {c : α} (hc : m.blank c = true) : words m (c :: t) = words m t := by
  simpa [words] using words_append_blank [] t hc

lemma words_word {w : List α} (hw : IsWord m w) : words m w = [w] := by
  rw [words, List.splitOnP_eq_singleton fun c hc => hw.not_blank hc]
  simp [hw.ne_nil]

lemma words_append_space {w : List α} (hw : IsWord m w) (t : List α) :
    words m (w ++ m.space :: t) = w :: words m t := by
  rw [words_append_blank w t (by simp [Marks.blank]), words_word hw]
  rfl

lemma words_joined {first rest : List (List α)} (hfirst : ∀ w ∈ first, IsWord m w)
    (hrest : ∀ w ∈ rest, IsWord m w) :
    words m (m.space :: (first.flatMap (· ++ [m.space]) ++
      rest.flatMap fun w => m.space :: m.tab :: (w ++ [m.space]))) = first ++ rest := by
  have hspace : m.blank m.space = true := by simp [Marks.blank]
  have htab : m.blank m.tab = true := by simp [Marks.blank]
  rw [words_cons_blank _ hspace]
  induction first with
  | nil =>
    rw [List.flatMap_nil, List.nil_append, List.nil_append]
    induction rest with
    | nil => simp [words]
    | cons w rest ih =>
      rw [List.flatMap_cons, List.cons_append, List.cons_append, words_cons_blank _ hspace,
        words_cons_blank _ htab, List.append_assoc, List.singleton_append,
        words_append_space (hrest w List.mem_cons_self),
        ih fun v hv => hrest v (List.mem_cons_of_mem w hv)]
  | cons w first ih =>
    rw [List.flatMap_cons, List.append_assoc, List.append_assoc, List.singleton_append,
      words_append_space (hfirst w List.mem_cons_self),
      ih fun v hv => hfirst v (List.mem_cons_of_mem w hv), List.cons_append]

lemma not_blank_of_ne {c : α} (hspace : c ≠ m.space) (htab : c ≠ m.tab) : m.blank c = false := by
  simp [Marks.blank, hspace, htab]

lemma not_mem_joined {first rest : List (List α)} {c : α} (hc : m.blank c = false)
    (hfirst : ∀ w ∈ first, c ∉ w) (hrest : ∀ w ∈ rest, c ∉ w) :
    c ∉ m.space :: (first.flatMap (· ++ [m.space]) ++
      rest.flatMap fun w => m.space :: m.tab :: (w ++ [m.space])) := by
  obtain ⟨hspace, htab⟩ : c ≠ m.space ∧ c ≠ m.tab := by simpa [Marks.blank] using hc
  intro hmem
  simp only [List.mem_cons, List.mem_append, List.mem_flatMap, List.not_mem_nil, or_false, hspace,
    htab, false_or] at hmem
  rcases hmem with ⟨w, hw, hcw⟩ | ⟨w, hw, hcw⟩
  · exact hfirst w hw hcw
  · exact hrest w hw hcw

lemma not_mem_ruleLines {target : List α} {first rest : List (List α)} {c : α}
    (hc : m.blank c = false) (hcolon : c ≠ m.colon) (htarget : c ∉ target)
    (hfirst : ∀ w ∈ first, c ∉ w) (hrest : ∀ w ∈ rest, c ∉ w) :
    ∀ l ∈ ruleLines m target first rest, c ∉ l := by
  obtain ⟨hspace, htab⟩ : c ≠ m.space ∧ c ≠ m.tab := by simpa [Marks.blank] using hc
  intro l hl hmem
  rcases List.mem_cons.mp hl with rfl | hl
  · simp only [List.mem_cons, List.mem_append, List.mem_flatMap, List.not_mem_nil, or_false, hspace,
      hcolon, htarget, false_or] at hmem
    obtain ⟨w, hw, hcw⟩ := hmem
    exact hfirst w hw hcw
  · obtain ⟨w, hw, rfl⟩ := List.mem_map.mp hl
    simp only [List.mem_cons, List.mem_append, List.not_mem_nil, or_false, hspace, htab,
      false_or] at hmem
    exact hrest w hw hmem

variable (m) in
omit [DecidableEq α] in
lemma Marks.distinct :
    m.newline ≠ m.cont ∧ m.newline ≠ m.colon ∧ m.newline ≠ m.space ∧ m.newline ≠ m.tab ∧
      m.cont ≠ m.colon ∧ m.cont ≠ m.space ∧ m.cont ≠ m.tab ∧ m.colon ≠ m.space ∧ m.colon ≠ m.tab ∧
      ∀ c ∈ m.reserved, c ≠ m.colon ∧ c ≠ m.space ∧ c ≠ m.tab := by
  have h := m.nodup
  simp only [List.nodup_cons, List.mem_cons, not_or] at h
  obtain ⟨⟨h1, h2, h3, h4, _⟩, ⟨h5, h6, h7, _⟩, ⟨h8, h9, h10⟩, ⟨_, h11⟩, h12, _⟩ := h
  refine ⟨h1, h2, h3, h4, h5, h6, h7, h8, h9, fun c hc => ⟨?_, ?_, ?_⟩⟩
  · exact ne_of_mem_of_not_mem hc h10
  · exact ne_of_mem_of_not_mem hc h11
  · exact ne_of_mem_of_not_mem hc h12

section Words

variable {target : List α} {first rest : List (List α)} (htarget : IsWord m target)
  (hfirst : ∀ w ∈ first, IsWord m w) (hrest : ∀ w ∈ rest, IsWord m w)

include htarget hfirst hrest

lemma ruleLines_newline : ∀ l ∈ ruleLines m target first rest, m.newline ∉ l := by
  obtain ⟨_, hcolon, hspace, htab, _⟩ := m.distinct
  exact not_mem_ruleLines (not_blank_of_ne hspace htab) hcolon htarget.newline
    (fun w hw => (hfirst w hw).newline) fun w hw => (hrest w hw).newline

lemma ruleLines_cont : ∀ l ∈ ruleLines m target first rest, m.cont ∉ l := by
  obtain ⟨_, _, _, _, hcolon, hspace, htab, _⟩ := m.distinct
  exact not_mem_ruleLines (not_blank_of_ne hspace htab) hcolon htarget.cont
    (fun w hw => (hfirst w hw).cont) fun w hw => (hrest w hw).cont

/-- A rule laid out over continued lines is read back as that rule. -/
theorem readRules_ruleLines :
    readRules m (continued m (ruleLines m target first rest)) = some [⟨[target], first ++ rest⟩] := by
  obtain ⟨_, hnc, hns, hnt, _, _, _, hos, hot, hres⟩ := m.distinct
  generalize hprereqs : m.space :: (first.flatMap (· ++ [m.space]) ++
    rest.flatMap fun w => m.space :: m.tab :: (w ++ [m.space])) = prereqs
  have hjoin : join m (continued m (ruleLines m target first rest)) =
      (target ++ m.colon :: prereqs) ++ [m.newline] := by
    rw [ruleLines, join_continued, ← hprereqs, List.flatMap_map]
    · simp
    · exact ruleLines_cont htarget hfirst hrest
  have hnewline : m.newline ∉ target ++ m.colon :: prereqs := by
    have := not_mem_joined (not_blank_of_ne hns hnt)
      (fun w hw => (hfirst w hw).newline) fun w hw => (hrest w hw).newline
    rw [hprereqs] at this
    simp [htarget.newline, hnc, this]
  have hcolon : m.colon ∉ prereqs := by
    rw [← hprereqs]
    exact not_mem_joined (not_blank_of_ne hos hot) (fun w hw => (hfirst w hw).colon)
      fun w hw => (hrest w hw).colon
  have hreserved : ∀ c ∈ m.reserved, c ∉ target ++ m.colon :: prereqs := by
    intro c hc
    obtain ⟨hcolon, hspace, htab⟩ := hres c hc
    have := not_mem_joined (not_blank_of_ne hspace htab)
      (fun w hw => (hfirst w hw).reserved hc) fun w hw => (hrest w hw).reserved hc
    rw [hprereqs] at this
    simp [htarget.reserved hc, hcolon, this]
  obtain ⟨a, as, rfl⟩ := List.exists_cons_of_ne_nil htarget.ne_nil
  have hblank := htarget.not_blank (List.mem_cons_self (a := a) (l := as))
  have htab : a ≠ m.tab := by
    rintro rfl
    simp [Marks.blank] at hblank
  have hrule : readRule m (a :: as ++ m.colon :: prereqs) = some ⟨[a :: as], first ++ rest⟩ := by
    rw [readRule, if_neg, List.splitOn_append_cons_self_of_not_mem htarget.colon,
      List.splitOn_eq_singleton hcolon]
    · simp only [words_word htarget, ← hprereqs, words_joined hfirst hrest]
    · rintro (htab' | ⟨c, hc, hmem⟩)
      · exact htab (by simpa using htab')
      · exact hreserved c hc hmem
  rw [readRules, hjoin, List.splitOn_append_cons_self_of_not_mem hnewline, List.splitOn_nil,
    List.filter_cons_of_pos (by simp [hblank]), List.filter_cons_of_neg (by simp), List.filter_nil,
    List.mapM_cons, hrule]
  rfl

end Words

end Metroskrew.Library.MakeRule
