import Mathlib.Data.List.DropRight
import Metroskrew.Bytes
import Metroskrew.Wrap.ParseArgs

/-! Where the wrapper finds the tools and their libraries, outside Windows. An access outside a buffer
has no result. -/

namespace Metroskrew.Wrap.Locate

open Metroskrew.Wrap.ParseArgs

def pathSep : Arg := tchars "/"

/-- `while (sep > 0) if (_tcschr(PATH_DELIM, str[--sep])) break;` -/
def dirnameLoop (str : Arg) : ℕ → ℕ
  | 0 => 0
  | sep + 1 => if str[sep]? = some 0x2f then sep else dirnameLoop str sep

def myDirname (str : Arg) : Arg := str.take (dirnameLoop str str.length)

/-- The buffer in which the link fits, up to where `readlink` has filled it. -/
def readSelf (target : Arg) (size : ℕ) : Option Arg :=
  let size' := size + 0x1000
  let res := min target.length (size' - 1)
  if res = size' - 1 then readSelf target size'
  else if res < size' then some (target.take res)
  else none
termination_by target.length + 1 - size
decreasing_by omega

/-- What `/proc/self/exe` leads to, and the other things of the system that are looked at. -/
structure World where
  selfExe : Option Arg
  env : Arg → Option Arg
  files : Arg → Option (List UInt8)
  isDir : Arg → Bool

inductive Stop where
  | exit | fault
  deriving Repr, DecidableEq

def orFault {α : Type} : Option α → Except Stop α
  | none => .error .fault
  | some a => .ok a

/-- `config.h` -/
structure Config where
  binToDatadir : Arg
  binToLibdir : Arg

variable (config : Config) (w : World)

def findSelf (argv0 : Arg) : Except Stop Arg :=
  let dir := myDirname argv0
  if dir = [] then
    match w.selfExe with
    | none => .error .exit
    | some target => do
      let dir ← orFault (readSelf target 0)
      .ok (myDirname dir)
  else .ok dir

def findDatadir (self : Arg) : Option Arg :=
  match w.env (tchars "SKREW_DATADIR") with
  | some env => some env
  | none => if self ≠ [] then some (self ++ pathSep ++ config.binToDatadir) else none

def findLibdir (self : Arg) : Option Arg :=
  match w.env (tchars "SKREW_LIBDIR") with
  | some env => some env
  | none => if self ≠ [] then some (self ++ pathSep ++ config.binToLibdir) else none

/-- An empty file is not read. -/
def fileRead (path : Arg) : Option (List UInt8) :=
  match w.files path with
  | some (c :: data) => some (c :: data)
  | _ => none

def subdirs : List Arg := [tchars "sdk", tchars "sdk" ++ pathSep ++ tchars "ds"]

/-- `!*s || strchr(" \t\n", *s)` -/
def blank (c : UInt8) : Bool := c = 0 || c = 0x20 || c = 0x09 || c = 0x0a

/-- `while (s < e && ...) s++;` -/
def stripStart (data : List UInt8) (e s : ℕ) : Option ℕ :=
  if s < e then
    match data[s]? with
    | none => none
    | some c => if blank c then stripStart data e (s + 1) else some s
  else some s
termination_by e - s

/-- `while (e >= s && ...) e--; e++;`, where `n` is one more than `e`. -/
def stripEnd (data : List UInt8) (s : ℕ) : ℕ → Option ℕ
  | 0 => some 0
  | n + 1 =>
    if s ≤ n then
      match data[n]? with
      | none => none
      | some c => if blank c then stripEnd data s n else some (n + 1)
    else some (n + 1)

def utftotc (str : CString) : Arg := str.map UInt8.toUInt16

def sdkText (data : List UInt8) : Option Arg := do
  let s ← stripStart data (data.length - 1) 0
  let e ← stripEnd data s data.length
  let utf := (data.drop s).take (e - s)
  some (utftotc (cstr utf))

def sdkVersion (datadir : Option Arg) (ver tool suff : Arg) : Except Stop (Option Arg) :=
  match datadir with
  | none => .ok none
  | some datadir =>
    match subdirs.findSome? fun dir => fileRead w
        (datadir ++ pathSep ++ dir ++ pathSep ++ ver ++ pathSep ++ tool ++ suff ++ tchars ".txt") with
    | none => .ok none
    | some file => some <$> orFault (sdkText file)

def libVersion (libdir : Option Arg) (ver : Arg) : Option Arg :=
  match libdir with
  | none => none
  | some libdir =>
    (subdirs.map fun dir => libdir ++ pathSep ++ dir ++ pathSep ++ ver).find? w.isDir

/-! ### What they come to -/

lemma readSelf_eq (target : Arg) (size : ℕ) : readSelf target size = some target := by
  induction size using readSelf.induct target with
  | case1 size size' res hfull ih => rw [readSelf, if_pos hfull, ih]
  | case2 size size' res hfull hroom =>
    rw [readSelf, if_neg hfull, if_pos hroom, List.take_of_length_le (by omega)]
  | case3 size size' res hfull hroom => omega

def trim (data : List UInt8) : List UInt8 := (data.dropWhile blank).rdropWhile blank

lemma stripStart_eq {data : List UInt8} {e s : ℕ} (he : e < data.length) (hs : s ≤ e) :
    stripStart data e s = some (s + (((data.take e).drop s).takeWhile blank).length) := by
  induction s using stripStart.induct data e with
  | case1 s hlt hnone => exact absurd hnone (by simp; omega)
  | case2 s hlt c hc hblank ih =>
    have hcons : (data.take e).drop s = c :: (data.take e).drop (s + 1) := by
      rw [List.drop_eq_getElem_cons (by simp; omega), List.getElem_take]
      rw [List.getElem?_eq_getElem (by omega), Option.some.injEq] at hc
      rw [hc]
    rw [stripStart, if_pos hlt, hc]
    dsimp only
    rw [if_pos hblank, ih hlt, hcons, List.takeWhile_cons_of_pos hblank, List.length_cons]
    congr 1
    omega
  | case3 s hlt c hc hblank =>
    have hcons : (data.take e).drop s = c :: (data.take e).drop (s + 1) := by
      rw [List.drop_eq_getElem_cons (by simp; omega), List.getElem_take]
      rw [List.getElem?_eq_getElem (by omega), Option.some.injEq] at hc
      rw [hc]
    rw [stripStart, if_pos hlt, hc]
    dsimp only
    rw [if_neg hblank, hcons, List.takeWhile_cons_of_neg hblank, List.length_nil, Nat.add_zero]
  | case4 s hlt =>
    rw [stripStart, if_neg hlt, List.drop_of_length_le (by simp; omega), List.takeWhile_nil,
      List.length_nil, Nat.add_zero]

lemma stripEnd_eq {data : List UInt8} {n s : ℕ} (hn : n ≤ data.length) (hs : s ≤ n) :
    stripEnd data s n = some (s + (((data.take n).drop s).rdropWhile blank).length) := by
  induction n with
  | zero =>
    obtain rfl : s = 0 := Nat.le_zero.mp hs
    rfl
  | succ n ih =>
    have hlt : n < data.length := hn
    rw [stripEnd]
    by_cases hsn : s ≤ n
    · have hsnoc : (data.take (n + 1)).drop s = (data.take n).drop s ++ [data[n]] := by
        rw [List.take_succ_eq_append_getElem hlt, List.drop_append_of_le_length (by simp; omega)]
      rw [if_pos hsn, List.getElem?_eq_getElem hlt, hsnoc]
      dsimp only
      by_cases hblank : blank data[n] = true
      · rw [if_pos hblank, List.rdropWhile_concat_pos _ _ _ hblank, ih hlt.le hsn]
      · rw [if_neg hblank, List.rdropWhile_concat_neg _ _ _ hblank]
        simp
        omega
    · obtain rfl : s = n + 1 := by omega
      rw [if_neg hsn, List.drop_of_length_le (by simp)]
      rfl

lemma sdkText_eq {data : List UInt8} (hdata : data ≠ []) :
    sdkText data = some (utftotc (cstr (trim data))) := by
  have hpos := List.length_pos_of_ne_nil hdata
  have hstart := stripStart_eq (show data.length - 1 < data.length by omega) (Nat.zero_le _)
  rw [List.drop_zero, Nat.zero_add, ← List.dropLast_eq_take] at hstart
  set s := (data.dropLast.takeWhile blank).length with hs
  have hle : s ≤ data.dropLast.length := (List.takeWhile_prefix _).length_le
  have hend := stripEnd_eq (le_refl data.length) (show s ≤ data.length by simp at hle; omega)
  have hrest : (data.drop s).rdropWhile blank = trim data := by
    have hsplit : data = data.dropLast ++ [data.getLast hdata] :=
      (List.dropLast_append_getLast hdata).symm
    have hfront : data.dropLast.drop s = data.dropLast.dropWhile blank := by
      conv_lhs => rw [← List.takeWhile_append_dropWhile (p := blank) (l := data.dropLast)]
      exact List.drop_left' hs.symm
    have hdrop : data.drop s = data.dropLast.dropWhile blank ++ [data.getLast hdata] := by
      conv_lhs => rw [hsplit]
      rw [List.drop_append_of_le_length hle, hfront]
    rw [hdrop, trim]
    conv_rhs => rw [hsplit]
    rw [List.dropWhile_append]
    split_ifs with hempty
    · rw [List.isEmpty_iff.mp hempty, List.nil_append]
      by_cases hblank : blank (data.getLast hdata) = true
      · simp [List.rdropWhile, hblank]
      · simp [hblank]
    · rfl
  simp only [sdkText, hstart, hend, Option.bind_eq_bind, Option.bind_some, List.take_length,
    Nat.add_sub_cancel_left, hrest]
  rw [← hrest, ← List.prefix_iff_eq_take.mp (List.rdropWhile_prefix _ _)]

end Metroskrew.Wrap.Locate
