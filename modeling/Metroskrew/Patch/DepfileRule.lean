import Metroskrew.Library.MakeRule
import Metroskrew.Patch.DepfileBuild
import Metroskrew.Patch.RelpathMemory

/-! The dependency file is one make rule, which make reads back. -/

namespace Metroskrew.Patch

open Metroskrew.Dlls Metroskrew.Library.MakeRule

def make : Marks UInt8 where
  newline := 0x0a
  cont := 0x5c
  colon := 0x3a
  space := 0x20
  tab := 0x09
  reserved := ascii "#$%"
  nodup := by decide

/-- A text that can stand in a rule once its backslashes are gone. -/
def Clean (s : CString) : Prop := ∀ c ∈ s, c ∉ ascii " \t\n:#$%"

instance (s : CString) : Decidable (Clean s) := inferInstanceAs (Decidable (∀ c ∈ s, _))

/-- The name of a header in the rule. -/
def headerName (cwd : CString) (header : MwPath) : Option CString :=
  (relpath cwd (((header.dir ++ header.file).take 259).map slash)).map (List.take 259)

variable {fresh : ℕ → UInt8}

structure MwString.Holds (string : MwString) (text : CString) : Prop where
  data_eq : string.data.data = text
  size_eq : string.size = text.length
  valid : string.data.flags ≠ GMEM_INVALID_HANDLE

variable (fresh) in
lemma stringAlloc_holds : ∃ string, stringAlloc fresh 0 = some string ∧ string.Holds [] :=
  ⟨_, rfl, rfl, rfl, show GMEM_ZEROINIT ≠ GMEM_INVALID_HANDLE by decide⟩

variable (fresh) in
lemma MwString.Holds.append {string : MwString} {text : CString} (h : string.Holds text)
    (s : CString) :
    ∃ string', stringAppend fresh string s = some string' ∧ string'.Holds (text ++ s) := by
  have hlen : string.data.size = string.size := by
    rw [← string.data.data_length, h.data_eq, h.size_eq]
  have hflags : unhandledFlags (GMEM_ZEROINIT ||| GMEM_MOVEABLE) = 0 := by decide
  have hgrow : string.data.size ≤ string.size + s.length := by omega
  obtain ⟨grown, hgrown, hsize, hmoved, htake⟩ := globalReAlloc_some fresh string.data hflags hgrow
  obtain ⟨filled, hfilled, _, hkept, hdata⟩ := grown.store_some hsize.ge
  have hvalid : grown.flags ≠ GMEM_INVALID_HANDLE := by
    rw [hmoved]
    decide
  have hcur : stringSize string = some string.size := if_neg h.valid
  have hrealloc : stringRealloc fresh string (string.size + s.length) =
      some ⟨grown, string.size + s.length⟩ := by
    rw [stringRealloc, hgrown]
    rfl
  have hcurData : stringData ⟨grown, string.size + s.length⟩ = some grown := if_neg hvalid
  refine ⟨⟨filled, string.size + s.length⟩, ?_, ?_, ?_, hkept ▸ hvalid⟩
  · simp only [stringAppend, hcur, hrealloc, bind, Option.bind_some, hcurData, hfilled]
  · rw [hdata, ← hlen, htake, h.data_eq, List.drop_eq_nil_of_le, List.append_nil]
    rw [grown.data_length, hsize, hlen]
  · rw [h.size_eq, List.length_append]

lemma memccpyTerm_eq (s : CString) : memccpyTerm s pathMax = s.take 259 := by
  rw [memccpyTerm]
  split_ifs with hlt
  · exact (List.take_of_length_le (Nat.le_of_lt_succ hlt)).symm
  · rfl

lemma pathJoin_eq (path : MwPath) : pathJoin path pathMax = (path.dir ++ path.file).take 259 := by
  have hpos : pathMax ≠ 0 := by decide
  have hmax : pathMax = 260 := rfl
  rw [pathJoin, List.take_append, if_neg hpos, hmax]
  dsimp only
  split_ifs with hlong hdir
  · rw [List.take_length, List.take_of_length_le (show path.dir.length ≤ 259 by omega)]
    congr 2
    omega
  · rw [show 259 - path.dir.length = 0 by omega]
  · rw [List.take_length, List.take_length, List.take_of_length_le (by omega),
      List.take_of_length_le (by omega)]

lemma Clean.map_slash {s : CString} (h : Clean s) : Clean (s.map slash) := by
  intro c hc
  obtain ⟨b, hb, rfl⟩ := List.mem_map.mp hc
  rw [slash]
  split_ifs
  · decide
  · exact h b hb

lemma backslash_not_mem (s : CString) : 0x5c ∉ s.map slash := by
  intro hc
  obtain ⟨b, _, hb⟩ := List.mem_map.mp hc
  rw [slash] at hb
  split_ifs at hb with hslash
  · exact absurd hb (by decide)
  · exact hslash hb

lemma Clean.isWord {s : CString} (h : Clean s) (hne : s ≠ []) (hslash : 0x5c ∉ s) :
    IsWord make s := by
  refine ⟨hne, fun c hc hmark => ?_⟩
  have hall : make.all = [0x0a, 0x5c, 0x3a, 0x20, 0x09, 0x23, 0x24, 0x25] := by decide
  have hclean := h c hc
  have hc : c ≠ 0x5c := ne_of_mem_of_not_mem hc hslash
  rw [hall] at hmark
  have hlist : ascii " \t\n:#$%" = [0x20, 0x09, 0x0a, 0x3a, 0x23, 0x24, 0x25] := by decide
  rw [hlist] at hclean
  simp only [List.mem_cons, not_or] at hmark hclean
  tauto

lemma Clean.pathDupUnx_eq {s : CString} (h : Clean s) : pathDupUnx s = s.map slash := by
  have hdrv : pathHasDrv s = false := by
    rw [pathHasDrv.eq_def]
    split
    · rename_i c d e rest
      have := h d (by simp)
      have hd : d ≠ 0x3a := by
        rintro rfl
        exact this (by decide)
      simp [hd]
    · rfl
  rw [pathDupUnx, hdrv, if_neg Bool.false_ne_true, slashLoop_eq]

lemma escaped_word {w : CString} (hw : IsWord make w) : escaped w = some w := by
  have hspace : 0x20 ∉ w := fun h => hw.clean _ h (by decide)
  rw [escaped, strchr_of_not_mem hspace]
  rfl

lemma headerName_word (cwd : CString) {header : MwPath} (hdir : Clean header.dir)
    (hfile : Clean header.file) :
    ∃ rel, relpath cwd ((pathJoin header pathMax).map slash) = some rel ∧
      headerName cwd header = some (rel.take 259) ∧ IsWord make (rel.take 259) := by
  obtain ⟨rel, hrel, hne, hmem⟩ :=
    RelpathMemory.relpath_total cwd ((pathJoin header pathMax).map slash)
  have hclean : Clean (pathJoin header pathMax) := by
    intro c hc
    rw [pathJoin_eq] at hc
    exact (List.mem_append.mp (List.mem_of_mem_take hc)).elim (hdir c) (hfile c)
  refine ⟨rel, hrel, ?_, ?_⟩
  · rw [headerName, ← pathJoin_eq, hrel]
    rfl
  · refine Clean.isWord (fun c hc => ?_) (by simpa using hne) fun hc => ?_
    · rcases hmem c (List.mem_of_mem_take hc) with hc | rfl | rfl
      · exact hclean.map_slash c hc
      · decide
      · decide
    · rcases hmem _ (List.mem_of_mem_take hc) with hc | hc | hc
      · exact backslash_not_mem _ hc
      · exact absurd hc (by decide)
      · exact absurd hc (by decide)

variable {Targets HeaderStruct : Type} {host : Host Targets HeaderStruct}
  {headerStruct : HeaderStruct} {cwd : CString}

lemma sprintf_some {text : CString} (h : text.length < 520) : sprintf text = some text := if_pos h

lemma backslash_length (more : Bool) : (backslash more).length ≤ 1 := by cases more <;> decide

lemma continued_backslash (l : CString) {ls : List CString} {more : Bool}
    (hmore : more = false ↔ ls = []) :
    continued make (l :: ls) = l ++ backslash more ++ [make.newline] ++ continued make ls := by
  rw [continued, List.append_assoc _ [make.newline], List.singleton_append]
  cases more with
  | false => rw [if_pos (hmore.mp rfl)]; rfl
  | true => rw [if_neg fun h => Bool.noConfusion (hmore.mpr h)]; rfl

def headerLine (name : CString) : CString := make.tab :: (name ++ [make.space])

lemma continued_ruleLines (target : CString) (first : List CString) {names : List CString}
    {more : Bool} (hmore : more = false ↔ names = []) :
    continued make (ruleLines make target first names) =
      target ++ make.colon :: make.space :: first.flatMap (· ++ [make.space]) ++ backslash more ++
        [make.newline] ++ continued make (names.map headerLine) :=
  continued_backslash _ (hmore.trans List.map_eq_nil_iff.symm)

variable (fresh) in
lemma printHeader_holds (hcwd : host.getcwd = some cwd) {header : ℤ} (more : Bool)
    {string : MwString} {text : CString} (h : string.Holds text)
    (hdir : Clean (host.depfileGetHeader headerStruct header).dir)
    (hfile : Clean (host.depfileGetHeader headerStruct header).file) :
    ∃ name string', headerName cwd (host.depfileGetHeader headerStruct header) = some name ∧
      IsWord make name ∧
      printHeader fresh host headerStruct header more string = some string' ∧
      string'.Holds (text ++ (headerLine name ++ backslash more ++ [make.newline])) := by
  obtain ⟨rel, hrel, hname, hword⟩ := headerName_word cwd hdir hfile
  generalize hline : ascii "\t" ++ rel.take 259 ++ ascii " " ++ backslash more ++ ascii "\n" = line
  have hlen : line.length < 520 := by
    have := backslash_length more
    rw [← hline]
    simp only [List.length_append, List.length_take]
    have : (ascii "\t").length = 1 ∧ (ascii " ").length = 1 ∧ (ascii "\n").length = 1 := by decide
    omega
  obtain ⟨string', hstring', hholds⟩ := h.append fresh line
  refine ⟨rel.take 259, string', hname, hword, ?_, ?_⟩
  · simp only [printHeader, hcwd, bind, Option.bind_some, slashLoop_eq, hrel, memccpyTerm_eq,
      escaped_word hword, hline, sprintf_some hlen, hstring']
  · rw [← hline] at hholds
    exact hholds

variable (fresh) in
lemma printHeaders_holds (hcwd : host.getcwd = some cwd) (headers : List ℤ)
    (hheaders : ∀ header ∈ headers, Clean (host.depfileGetHeader headerStruct header).dir ∧
      Clean (host.depfileGetHeader headerStruct header).file)
    {string : MwString} {text : CString} (h : string.Holds text) :
    ∃ names string',
      headers.mapM (fun header => headerName cwd (host.depfileGetHeader headerStruct header)) =
        some names ∧
      (names = [] ↔ headers = []) ∧ (∀ name ∈ names, IsWord make name) ∧
      printHeaders fresh host headerStruct headers string = some string' ∧
      string'.Holds (text ++ continued make (names.map headerLine)) := by
  induction headers generalizing string text with
  | nil => exact ⟨[], string, rfl, by simp, by simp, rfl, by simpa [continued] using h⟩
  | cons header rest ih =>
    obtain ⟨hdir, hfile⟩ := hheaders header List.mem_cons_self
    obtain ⟨name, mid, hname, hword, hmid, hholds⟩ :=
      printHeader_holds fresh hcwd (rest ≠ []) h hdir hfile
    obtain ⟨names, string', hnames, hnil, hwords, hstring', hholds'⟩ :=
      ih (fun k hk => hheaders k (List.mem_cons_of_mem header hk)) hholds
    refine ⟨name :: names, string', ?_, by simp, ?_, ?_, ?_⟩
    · rw [List.mapM_cons, hname, hnames]
      rfl
    · exact List.forall_mem_cons.mpr ⟨hword, hwords⟩
    · rw [printHeaders, hmid]
      exact hstring'
    · have hmore : decide (rest ≠ []) = false ↔ names.map headerLine = [] := by
        rw [List.map_eq_nil_iff, hnil, decide_eq_false_iff_not, not_not]
      rw [List.map_cons, continued_backslash _ hmore, ← List.append_assoc]
      exact hholds'

lemma Clean.unx_name {s : CString} (h : Clean s) (hne : s ≠ []) (hlen : s.length ≤ 259) :
    memccpyTerm (pathDupUnx s) pathMax = pathDupUnx s ∧ IsWord make (pathDupUnx s) ∧
      (pathDupUnx s).length ≤ 259 := by
  rw [memccpyTerm_eq, h.pathDupUnx_eq]
  have hmap : (s.map slash).length ≤ 259 := by rwa [List.length_map]
  refine ⟨List.take_of_length_le hmap, ?_, hmap⟩
  exact h.map_slash.isWord (by simpa using hne) (backslash_not_mem s)

def ruleHead (source target : CString) : CString × List CString :=
  if target = [] then (pathDupUnx source, []) else (pathDupUnx target, [pathDupUnx source])

variable (fresh) in
lemma depfileBuild_holds (d : DepfileStruct Targets) (hcwd : host.getcwd = some cwd)
    {target : CString} (htarget : host.depfileGetTarget d.targets pathMax = target)
    (hsourceNe : d.source ≠ []) (hsource : Clean d.source) (hsourceLen : d.source.length ≤ 259)
    (htargetClean : Clean target) (htargetLen : target.length ≤ 259)
    (hheaders : ∀ header ∈ d.headers, Clean (host.depfileGetHeader headerStruct header).dir ∧
      Clean (host.depfileGetHeader headerStruct header).file) :
    ∃ string names, depfileBuild fresh host headerStruct d = some string ∧
      d.headers.mapM (fun header => headerName cwd (host.depfileGetHeader headerStruct header)) =
        some names ∧
      (∀ name ∈ names, IsWord make name) ∧
      string.Holds (continued make (ruleLines make (ruleHead d.source target).1
        (ruleHead d.source target).2 names)) := by
  obtain ⟨hsourceTerm, hsourceWord, hsourceMax⟩ := hsource.unx_name hsourceNe hsourceLen
  obtain ⟨empty, hempty, hholds⟩ := stringAlloc_holds fresh
  have hcolon : ascii ": " = [make.colon, make.space] := by decide
  have hspace : ascii " " = [make.space] := by decide
  have hnewline : ascii "\n" = [make.newline] := by decide
  generalize hmore : decide (d.headers.length ≠ 0) = more
  have hmoreNil {names : List CString} (h : names = [] ↔ d.headers = []) :
      more = false ↔ names = [] := by
    simp [← hmore, h]
  have hmoreLen := backslash_length more
  by_cases hnil : target = []
  · generalize hline : pathDupUnx d.source ++ ascii ": " ++ backslash more ++ ascii "\n" = line
    have hlen : line.length < 520 := by
      simp only [← hline, hcolon, hnewline, List.length_append, List.length_cons, List.length_nil]
      omega
    obtain ⟨mid, hmid, hmidHolds⟩ := hholds.append fresh line
    obtain ⟨names, string, hnames, hnamesNil, hwords, hstring, hall⟩ :=
      printHeaders_holds fresh hcwd d.headers hheaders hmidHolds
    refine ⟨string, names, ?_, hnames, hwords, ?_⟩
    · simp only [depfileBuild, hempty, bind, Option.bind_some, htarget, if_pos hnil, hsourceTerm,
        escaped_word hsourceWord, hmore, hline, sprintf_some hlen, hmid, hstring]
    · rw [ruleHead, if_pos hnil, continued_ruleLines _ _ (hmoreNil hnamesNil)]
      rw [← hline, hcolon, hnewline] at hall
      simpa using hall
  · obtain ⟨htargetTerm, htargetWord, htargetMax⟩ := htargetClean.unx_name hnil htargetLen
    generalize hline : pathDupUnx d.source ++ ascii " " ++ backslash more ++ ascii "\n" = line
    have hlen : (pathDupUnx target ++ ascii ": ").length < 520 ∧ line.length < 520 := by
      simp only [← hline, hcolon, hspace, hnewline, List.length_append, List.length_cons,
        List.length_nil]
      omega
    obtain ⟨first, hfirst, hfirstHolds⟩ := hholds.append fresh (pathDupUnx target ++ ascii ": ")
    obtain ⟨mid, hmid, hmidHolds⟩ := hfirstHolds.append fresh line
    obtain ⟨names, string, hnames, hnamesNil, hwords, hstring, hall⟩ :=
      printHeaders_holds fresh hcwd d.headers hheaders hmidHolds
    refine ⟨string, names, ?_, hnames, hwords, ?_⟩
    · simp only [depfileBuild, hempty, bind, Option.bind_some, htarget, if_neg hnil, htargetTerm,
        escaped_word htargetWord, sprintf_some hlen.1, hfirst, hsourceTerm,
        escaped_word hsourceWord, hmore, hline, sprintf_some hlen.2, hmid, hstring]
    · rw [ruleHead, if_neg hnil, continued_ruleLines _ _ (hmoreNil hnamesNil)]
      rw [← hline, hcolon, hspace, hnewline] at hall
      simpa using hall

/-- With clean names, the string holds one rule, and a line ends in a backslash just where another
line follows. -/
theorem depfile_build (host : Host Targets HeaderStruct) (headerStruct : HeaderStruct)
    (d : DepfileStruct Targets) (fresh : ℕ → UInt8) (cwd target : CString)
    (hcwd : host.getcwd = some cwd) (htarget : host.depfileGetTarget d.targets pathMax = target)
    (hsourceNe : d.source ≠ []) (hsource : Clean d.source) (hsourceLen : d.source.length ≤ 259)
    (htargetClean : Clean target) (htargetLen : target.length ≤ 259)
    (hheaders : ∀ header ∈ d.headers, Clean (host.depfileGetHeader headerStruct header).dir ∧
      Clean (host.depfileGetHeader headerStruct header).file) :
    ∃ string names, depfileBuild fresh host headerStruct d = some string ∧
      d.headers.mapM (fun header => headerName cwd (host.depfileGetHeader headerStruct header)) =
        some names ∧
      string.size = string.data.data.length ∧
      readRules make string.data.data =
        some [if target = [] then ⟨[pathDupUnx d.source], names⟩
          else ⟨[pathDupUnx target], pathDupUnx d.source :: names⟩] ∧
      ∀ i line, (string.data.data.splitOn 0x0a)[i]? = some line →
        (line.getLast? = some 0x5c ↔ i + 2 < (string.data.data.splitOn 0x0a).length) := by
  obtain ⟨string, names, hbuild, hnames, hwords, hholds⟩ :=
    depfileBuild_holds fresh d hcwd htarget hsourceNe hsource hsourceLen htargetClean
      htargetLen hheaders
  have hsourceWord := (hsource.unx_name hsourceNe hsourceLen).2.1
  have htargetWord : IsWord make (ruleHead d.source target).1 := by
    rw [ruleHead]
    split_ifs with hnil
    · exact hsourceWord
    · exact (htargetClean.unx_name hnil htargetLen).2.1
  have hfirst : ∀ w ∈ (ruleHead d.source target).2, IsWord make w := by
    intro w hw
    rw [ruleHead] at hw
    split_ifs at hw
    · cases hw
    · rwa [List.mem_singleton.mp hw]
  refine ⟨string, names, hbuild, hnames, by rw [hholds.size_eq, hholds.data_eq], ?_, ?_⟩
  · rw [hholds.data_eq, readRules_ruleLines htargetWord hfirst hwords, ruleHead]
    split_ifs
    · rfl
    · rfl
  · obtain ⟨hlength, hlines⟩ := splitOn_continued _ (ruleLines_newline htargetWord hfirst hwords)
    have hcont := ruleLines_cont htargetWord hfirst hwords
    intro i line hline
    rw [hholds.data_eq] at hline ⊢
    change (line.getLast? = some make.cont ↔ i + 2 < (List.splitOn make.newline _).length)
    rw [hlines i line hline hcont, hlength]
    omega

def incHost : Host Unit Unit where
  depfileGetTarget _ _ := ascii "build\\deps.o"
  depfileGetHeader _ header := ⟨ascii "\\work\\inc\\", if header = 0 then ascii "a.h" else ascii "b.h"⟩
  getcwd := some (ascii "/work")

theorem depfile_build_two_headers :
    ∃ string, depfileBuild (fun _ => 0) incHost () ⟨ascii "deps.c", (), [0, 1]⟩ = some string ∧
      readRules make string.data.data = some [⟨[ascii "build/deps.o"],
        [ascii "deps.c", ascii "inc/a.h", ascii "inc/b.h"]⟩] := by
  obtain ⟨string, names, hbuild, hnames, _, hrules, _⟩ :=
    depfile_build incHost () ⟨ascii "deps.c", (), [0, 1]⟩ (fun _ => 0) (ascii "/work")
      (ascii "build\\deps.o") rfl rfl (by decide +kernel) (by decide +kernel) (by decide +kernel)
      (by decide +kernel) (by decide +kernel) (by decide +kernel)
  have hinc : [0, 1].mapM (fun header => headerName (ascii "/work")
      (incHost.depfileGetHeader () header)) = some [ascii "inc/a.h", ascii "inc/b.h"] := by
    decide +kernel
  obtain rfl : names = [ascii "inc/a.h", ascii "inc/b.h"] := Option.some.inj (hnames.symm.trans hinc)
  have hsource : pathDupUnx (ascii "deps.c") = ascii "deps.c" := by decide +kernel
  have htarget : pathDupUnx (ascii "build\\deps.o") = ascii "build/deps.o" := by decide +kernel
  rw [if_neg (by decide), hsource, htarget] at hrules
  exact ⟨string, hbuild, hrules⟩

end Metroskrew.Patch
