import Metroskrew.Patch.RelpathBelow

/-! `relpath` in the _WIN32 build: the root of a drive or of a network share has to match before
anything is stripped. -/

namespace Metroskrew.Patch.Relpath

def hasDrive : CString → Bool
  | a :: b :: c :: _ => 0x41 ≤ a && a ≤ 0x5a && b = 0x3a && c = 0x5c
  | _ => false

def hasNetwork : CString → Bool
  | a :: b :: _ => a = 0x5c && b = 0x5c
  | _ => false

/-- `strchr(p + 2, sep)` as a length from `p`; `p` has at least two characters before the NUL. -/
def netLen (p : CString) : Option ℕ :=
  if p.length < 2 then none
  else
    match strchr (p.drop 2) 0x5c with
    | some c => some (p.length - c.length)
    | none => some p.length

def winMatch (cwd dst : CString) : Option ℕ :=
  let win := if hasDrive dst || hasDrive cwd then 3 else 0
  if hasNetwork dst || hasNetwork cwd then do
    let dstNetL ← netLen dst
    let cwdNetL ← netLen cwd
    some (if cwdNetL < dstNetL then dstNetL else cwdNetL)
  else some win

def relpathWin (cwd dst : CString) : Option CString := do
  let win ← winMatch cwd dst
  if win = 0 then relpathFrom 0x5c (ascii "..\\") dst cwd
  else if dst.take win = cwd.take win then do
    let dstP ← advance dst (win - 1)
    let cwdP ← advance cwd (win - 1)
    relpathFrom 0x5c (ascii "..\\") dstP cwdP
  else some dst

/-- A path `\\server\` and what follows. -/
def NetworkPath (cwd : CString) : Prop :=
  ∃ server rest, cwd = 0x5c :: 0x5c :: (server ++ 0x5c :: rest) ∧ server ≠ [] ∧ 0x5c ∉ server

def serverName (p : CString) : CString := (p.drop 2).takeWhile (· ≠ 0x5c)

/-- The drive, or the server with the separators before it. -/
def winRoot (p : CString) : CString :=
  if hasNetwork p then 0x5c :: 0x5c :: serverName p else p.take 3

variable {cwd dst rel : CString}

lemma drive_cons (h : hasDrive cwd) : ∃ a rest, cwd = a :: 0x3a :: 0x5c :: rest ∧ a ≠ 0x5c := by
  match cwd, h with
  | a :: b :: c :: rest, h =>
    simp only [hasDrive, Bool.and_eq_true, decide_eq_true_eq] at h
    obtain ⟨⟨⟨-, ha⟩, rfl⟩, rfl⟩ := h
    refine ⟨a, rest, rfl, ?_⟩
    rintro rfl
    exact absurd ha (by decide)

lemma hasNetwork_iff (p : CString) : hasNetwork p = true ↔ p.take 2 = [0x5c, 0x5c] := by
  match p with
  | [] => simp [hasNetwork]
  | [a] => simp [hasNetwork]
  | a :: b :: p => simp [hasNetwork]

lemma hasNetwork_length {p : CString} (h : hasNetwork p) : 2 ≤ p.length := by
  have hlen := congrArg List.length ((hasNetwork_iff p).mp h)
  simp only [List.length_take, List.length_cons, List.length_nil] at hlen
  omega

lemma netLen_eq {p : CString} (h : 2 ≤ p.length) : netLen p = some ((serverName p).length + 2) := by
  have hsum := congrArg List.length
    (List.takeWhile_append_dropWhile (p := fun b : UInt8 => b ≠ 0x5c) (l := p.drop 2))
  rw [List.length_append, List.length_drop] at hsum
  rw [netLen, if_neg (by omega), strchr, serverName]
  cases hdrop : (p.drop 2).dropWhile (· ≠ 0x5c) with
  | nil =>
    rw [hdrop, List.length_nil] at hsum
    simp only [Option.some.injEq]
    omega
  | cons b rest =>
    rw [hdrop] at hsum
    simp only [Option.some.injEq]
    omega

lemma take_server (p : CString) (h : hasNetwork p) :
    p.take ((serverName p).length + 2) = 0x5c :: 0x5c :: serverName p := by
  match p, h with
  | a :: b :: p, h =>
    simp only [hasNetwork, Bool.and_eq_true, decide_eq_true_eq] at h
    obtain ⟨rfl, rfl⟩ := h
    have hprefix := List.takeWhile_prefix (fun c : UInt8 => c ≠ 0x5c) (l := p)
    rw [List.take_succ_cons, List.take_succ_cons, serverName]
    simpa [eq_comm] using List.prefix_iff_eq_take.mp hprefix

/-- What begins with the root of `p` has a server name that begins with that of `p`. -/
lemma server_of_take {p q : CString} (hp : hasNetwork p)
    (h : q.take ((serverName p).length + 2) = p.take ((serverName p).length + 2)) :
    ∃ more, serverName q = serverName p ++ more := by
  rw [take_server p hp] at h
  have hq : q = 0x5c :: 0x5c :: (serverName p ++ q.drop ((serverName p).length + 2)) := by
    rw [← List.cons_append, ← List.cons_append, ← h, List.take_append_drop]
  have hname : ∀ c ∈ serverName p, (decide (c ≠ 0x5c)) = true := by
    intro c hc
    rw [serverName] at hc
    simpa using List.mem_takeWhile_imp hc
  refine ⟨(q.drop ((serverName p).length + 2)).takeWhile (· ≠ 0x5c), ?_⟩
  conv_lhs => rw [hq, serverName]
  rw [List.drop_succ_cons, List.drop_succ_cons, List.drop_zero, List.takeWhile_append_of_pos hname]

lemma take_mono {p q : CString} {m k : ℕ} (h : p.take m = q.take m) (hk : k ≤ m) :
    p.take k = q.take k := by
  have := congrArg (List.take k) h
  rwa [List.take_take, List.take_take, Nat.min_eq_left hk] at this

lemma network_of_take {p q : CString} {m : ℕ} (hm : 2 ≤ m) (h : p.take m = q.take m) :
    hasNetwork p = hasNetwork q := by
  have htwo := take_mono h hm
  rw [Bool.eq_iff_iff, hasNetwork_iff, hasNetwork_iff, htwo]

lemma winMatch_network (hdst : 2 ≤ dst.length) (hcwd : 2 ≤ cwd.length)
    (h : hasNetwork dst = true ∨ hasNetwork cwd = true) :
    winMatch cwd dst = some (max (serverName dst).length (serverName cwd).length + 2) := by
  have hor : (hasNetwork dst || hasNetwork cwd) = true := by simpa using h
  simp only [winMatch, hor, if_true, netLen_eq hdst, netLen_eq hcwd, bind, Option.bind_some,
    Option.some.injEq]
  split_ifs <;> omega

lemma winRoot_of_take (h : dst.take (max (serverName dst).length (serverName cwd).length + 2) =
    cwd.take (max (serverName dst).length (serverName cwd).length + 2))
    (hnet : hasNetwork dst = true ∨ hasNetwork cwd = true) : winRoot dst = winRoot cwd := by
  have hsame := network_of_take (Nat.le_add_left 2 _) h
  have hdst : hasNetwork dst = true := hnet.elim id fun hcwd => hsame.trans hcwd
  have hcwd : hasNetwork cwd = true := hsame.symm.trans hdst
  obtain ⟨more, hmore⟩ := server_of_take hdst (take_mono h.symm (by omega))
  obtain ⟨more', hmore'⟩ := server_of_take hcwd (take_mono h (by omega))
  have hserver : serverName dst = serverName cwd := by
    rw [hmore, List.append_assoc] at hmore'
    have hnil := List.append_eq_nil_iff.mp (List.self_eq_append_right.mp hmore')
    rw [hmore, hnil.1, List.append_nil]
  rw [winRoot, winRoot, if_pos hdst, if_pos hcwd, hserver]

lemma relpathWin_other (hcwd : 2 ≤ cwd.length) (habs : hasDrive cwd = true ∨ hasNetwork cwd = true)
    (hdst : 2 ≤ dst.length) (hroot : winRoot dst ≠ winRoot cwd) : relpathWin cwd dst = some dst := by
  by_cases hnet : hasNetwork dst = true ∨ hasNetwork cwd = true
  · rw [relpathWin, winMatch_network hdst hcwd hnet]
    simp only [bind, Option.bind_some]
    rw [if_neg (Nat.succ_ne_zero _), if_neg fun h => hroot (winRoot_of_take h hnet)]
  · obtain ⟨hdstNet, hcwdNet⟩ := not_or.mp hnet
    have hdrive := habs.resolve_right hcwdNet
    have hwin : winMatch cwd dst = some 3 := by simp [winMatch, hdstNet, hcwdNet, hdrive]
    rw [winRoot, winRoot, if_neg hdstNet, if_neg hcwdNet] at hroot
    rw [relpathWin, hwin]
    simp only [bind, Option.bind_some]
    rw [if_neg (by decide), if_neg hroot]

lemma relpathWin_drive (hcwd : hasDrive cwd) (hrel : rel ≠ []) :
    relpathWin cwd (cwd ++ 0x5c :: rel) = some rel := by
  have hdrive := hcwd
  obtain ⟨a, rest, rfl, ha⟩ := drive_cons hcwd
  have hwin : winMatch (a :: 0x3a :: 0x5c :: rest) (a :: 0x3a :: 0x5c :: rest ++ 0x5c :: rel) = some 3 := by
    simp [winMatch, hasNetwork, ha, hdrive]
  have hunder : relpathFrom 0x5c (ascii "..\\") (0x5c :: rest ++ 0x5c :: rel) (0x5c :: rest) = some rel :=
    relpathFrom_under rfl hrel
  rw [relpathWin, hwin]
  simpa [advance] using hunder

/-- Where no pointer stands on a separator nothing is stripped. -/
lemma relpathFrom_inside {sep : UInt8} {sepParent d w : CString} (hd : d ≠ []) (hdsep : d.head? ≠ some sep)
    (hwsep : w.head? ≠ some sep) : relpathFrom sep sepParent d w = some d := by
  have hloop : stripLoop sep d w = some (d, w) := by rw [stripLoop, if_pos hdsep]
  simp [relpathFrom, hloop, stripFinal_none hwsep, hd, hdsep, buildRel]

lemma network_hasNetwork (h : NetworkPath cwd) : hasNetwork cwd = true := by
  obtain ⟨server, rest, rfl, -⟩ := h
  simp [hasNetwork]

lemma serverName_network {server : CString} (h : 0x5c ∉ server) (rest : CString) :
    serverName (0x5c :: 0x5c :: (server ++ 0x5c :: rest)) = server := by
  rw [serverName, List.drop_succ_cons, List.drop_succ_cons, List.drop_zero,
    List.takeWhile_append_of_pos]
  · simp
  · intro c hc
    simpa using ne_of_mem_of_not_mem hc h

/-- Behind the root of a network share the pointers stand on the last letter of the server. -/
lemma relpathWin_network (hcwd : NetworkPath cwd) (rel : CString) :
    ∃ c rest, relpathWin cwd (cwd ++ 0x5c :: rel) = some (c :: rest ++ 0x5c :: rel) := by
  have hnet := network_hasNetwork hcwd
  obtain ⟨server, rest, rfl, hne, hserver⟩ := hcwd
  have hdst : 0x5c :: 0x5c :: (server ++ 0x5c :: rest) ++ 0x5c :: rel =
      0x5c :: 0x5c :: (server ++ 0x5c :: (rest ++ 0x5c :: rel)) := by simp
  have hwin : winMatch (0x5c :: 0x5c :: (server ++ 0x5c :: rest))
      (0x5c :: 0x5c :: (server ++ 0x5c :: (rest ++ 0x5c :: rel))) = some (server.length + 2) := by
    rw [winMatch_network (by simp) (by simp) (.inr hnet), serverName_network hserver,
      serverName_network hserver, max_self]
  obtain ⟨front, c, rfl⟩ := (List.eq_nil_or_concat' server).resolve_left hne
  have hc : c ≠ 0x5c := by
    rintro rfl
    simp at hserver
  have htake : ∀ t : CString, (0x5c :: 0x5c :: (front ++ [c] ++ t)).take ((front ++ [c]).length + 2) =
      0x5c :: 0x5c :: (front ++ [c]) := by
    intro t
    rw [List.take_succ_cons, List.take_succ_cons, List.take_left]
  have hadvance : ∀ t : CString, advance (0x5c :: 0x5c :: (front ++ [c] ++ t))
      ((front ++ [c]).length + 2 - 1) = some (c :: t) := by
    intro t
    simp [advance]
  refine ⟨c, 0x5c :: rest, ?_⟩
  rw [hdst, relpathWin, hwin]
  simp only [bind, Option.bind_some, htake, hadvance]
  rw [if_neg (Nat.succ_ne_zero _), if_pos trivial, relpathFrom_inside (by simp) (by simpa using hc)
    (by simpa using hc)]
  simp

/-- Names below the directory are given back, and other drives and servers left alone, iff the
directory is on a drive. -/
theorem relpathWin_iff (cwd rel : CString) (hcwd : hasDrive cwd = true ∨ NetworkPath cwd)
    (hrel : rel ≠ []) :
    (relpathWin cwd (cwd ++ 0x5c :: rel) = some rel ∧
        ∀ dst, 2 ≤ dst.length → winRoot dst ≠ winRoot cwd → relpathWin cwd dst = some dst) ↔
      hasDrive cwd = true := by
  have habs : hasDrive cwd = true ∨ hasNetwork cwd = true := hcwd.imp_right network_hasNetwork
  have hlen : 2 ≤ cwd.length := by
    rcases habs with hdrive | hnet
    · obtain ⟨a, rest, rfl, -⟩ := drive_cons hdrive
      simp
    · exact hasNetwork_length hnet
  constructor
  · rintro ⟨hbelow, -⟩
    apply hcwd.resolve_right
    intro hnet
    obtain ⟨c, rest, hwin⟩ := relpathWin_network hnet rel
    have := congrArg List.length (Option.some.inj (hwin.symm.trans hbelow))
    simp only [List.length_append, List.length_cons] at this
    omega
  · intro hdrive
    exact ⟨relpathWin_drive hdrive hrel, fun dst => relpathWin_other hlen habs⟩

theorem relpathWin_drive_inc :
    relpathWin (ascii "C:\\src") (ascii "C:\\src" ++ 0x5c :: ascii "inc\\x.h") = some (ascii "inc\\x.h") ∧
      ∀ dst, 2 ≤ dst.length → winRoot dst ≠ winRoot (ascii "C:\\src") →
        relpathWin (ascii "C:\\src") dst = some dst :=
  (relpathWin_iff (ascii "C:\\src") (ascii "inc\\x.h") (.inl (by decide)) (by decide)).mpr (by decide)

theorem relpathWin_share :
    NetworkPath (ascii "\\\\srv\\share") ∧
      relpathWin (ascii "\\\\srv\\share") (ascii "\\\\srv\\share" ++ 0x5c :: ascii "x.h") =
        some (ascii "v\\share\\x.h") :=
  ⟨⟨ascii "srv", ascii "share", by decide, by decide, by decide⟩, by decide +kernel⟩

end Metroskrew.Patch.Relpath
