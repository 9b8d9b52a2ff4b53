import Metroskrew.Bytes
import Metroskrew.Patch.BitArr

/-! FUN_00505340: the rows it allocates without clearing, the report and the replay of what they
hold, and the loop that then works on them. -/

namespace Metroskrew.Patch

/-- A STRUC_0063a828 as the loop reads it: its number, and the numbers of the nodes its edges lead
to. -/
structure Node (n : ℕ) where
  unk1c : Fin n
  preds : List (Fin n)
  deriving DecidableEq

/-- DAT_0063a828 (its number, and those down its `next` chain) and DAT_0063ccb0. -/
structure Globals (n : ℕ) where
  entry : Fin n
  listed : List (Fin n)
  slots : Fin n → Option (Node n)

structure Heap (n : ℕ) where
  rows : Rows n
  curbits : Row n

variable {n : ℕ}

/-- `DAT_0063ccf0[entry][0] |= 1` on the row of the entry, which has been cleared. -/
def entryRow (g : Globals n) (mem : Heap n) : Row n :=
  let row := bitarrSet (mem.rows g.entry) 0
  let first : Fin (wordlen n) := ⟨0, by have := g.entry.pos; unfold wordlen; omega⟩
  Function.update row first (row first ||| 1)

/-- One node of the `next` chain: its `_init` is set, and its row is all ones. -/
def listStep (st : Rows n × (Fin n → Bool)) (i : Fin n) : Rows n × (Fin n → Bool) :=
  (Function.update st.1 i (bitarrSet (st.1 i) (-1)), Function.update st.2 i true)

def initRows (g : Globals n) (mem : Heap n) : Rows n × (Fin n → Bool) :=
  g.listed.foldl listStep
    (Function.update mem.rows g.entry (entryRow g mem),
      Function.update (fun _ => false) g.entry true)

/-- `for (z = 0; z < 32; z++) { b = (b << 1) | (a & 1); a >>= 1; }` -/
def reverseLoop : ℕ → BitVec 32 → BitVec 32 → BitVec 32
  | 0, _, b => b
  | z + 1, a, b => reverseLoop z (a >>> 1) ((b <<< 1) ||| (a &&& 1))

def reverse32 (a : BitVec 32) : BitVec 32 := reverseLoop 32 a 0

/-- The words of the rows that were not initialised, in the order both loops visit them. -/
def uninitWords (init : Fin n → Bool) : List (Fin n × Fin (wordlen n)) :=
  (List.finRange n).flatMap fun y =>
    if init y = true then [] else (List.finRange (wordlen n)).map fun x => (y, x)

def hexDigit (v : BitVec 4) : UInt8 :=
  if v.toNat < 10 then (0x30 + v.toNat).toUInt8 else (0x61 + (v.toNat - 10)).toUInt8

def hex08 (b : BitVec 32) : CString :=
  (List.range 8).map fun j => hexDigit ((b >>> (28 - 4 * j)).setWidth 4)

def reportData (rows : Rows n) (init : Fin n → Bool) : CString :=
  (uninitWords init).flatMap fun w => hex08 (reverse32 (rows w.1 w.2))

def hexValue (c : UInt8) : Option UInt8 :=
  if 0x30 ≤ c ∧ c ≤ 0x39 then some (c - 0x30)
  else if 0x41 ≤ c ∧ c ≤ 0x46 then some (c - 0x41 + 10)
  else if 0x61 ≤ c ∧ c ≤ 0x66 then some (c - 0x61 + 10)
  else none

/-- The loop that takes up to eight digits, `i` of them so far, and what it leaves of `hack_data`. -/
def readDigits : CString → BitVec 32 → ℕ → BitVec 32 × ℕ × CString
  | [], a, i => (a, i, [])
  | c :: s, a, i =>
    if i < 8 then
      match hexValue c with
      | none => readDigits s a i
      | some v => readDigits s ((a <<< 4) ||| v.toBitVec.setWidth 32) (i + 1)
    else (a, i, c :: s)

def readWord (hackData : CString) : Option (BitVec 32) × CString :=
  match readDigits hackData 0 0 with
  | (_, 0, rest) => (none, rest)
  | (a, i + 1, rest) => (some (reverse32 (a <<< (32 - (i + 1) * 4))), rest)

def setEntry (rows : Rows n) (w : Fin n × Fin (wordlen n)) (b : BitVec 32) : Rows n :=
  Function.update rows w.1 (Function.update (rows w.1) w.2 b)

def restoreWord (st : Rows n × CString) (w : Fin n × Fin (wordlen n)) : Rows n × CString :=
  match readWord st.2 with
  | (none, rest) => (st.1, rest)
  | (some b, rest) => (setEntry st.1 w b, rest)

/-- The state in which FUN_004f8b60 is called: the rows, the data reported, and `hack_data`, which
is NULL or what is left of the string. -/
structure Prelude (n : ℕ) where
  rows : Rows n
  data : Option CString
  hackData : Option CString

def prelude (hackChk : Bool) (hackData : Option CString) (g : Globals n) (mem : Heap n) : Prelude n :=
  let (rows, init) := initRows g mem
  match hackData with
  | none =>
    let report := hackChk = true ∧ ¬ ∀ i, init i = true
    { rows := rows, data := if report then some (reportData rows init) else none, hackData := none }
  | some hackData =>
    let (rows, rest) := (uninitWords init).foldl restoreWord (rows, hackData)
    { rows := rows, data := none, hackData := some rest }

structure PassState (n : ℕ) where
  rows : Rows n
  curbits : Row n
  cont : ℕ

variable (g : Globals n)

/-- One slot in a pass of the loop. A node without edges has no first one to read. -/
def visitSlot (st : PassState n) (i : Fin n) : Option (PassState n) :=
  match g.slots i with
  | none => some st
  | some cur1 =>
    if cur1.unk1c = g.entry then some st
    else
      match cur1.preds with
      | [] => none
      | p :: ps =>
        let curbits := bitarrCpy st.curbits (st.rows p)
        let curbits := ps.foldl (fun curbits q => bitarrAnd curbits (st.rows q)) curbits
        let curbits := orBit curbits cur1.unk1c
        let (row, res) := bitarrCpycmp (st.rows cur1.unk1c) curbits
        some ⟨Function.update st.rows cur1.unk1c row, curbits, st.cont + res⟩

def pass (rows : Rows n) (curbits : Row n) : Option (PassState n) :=
  (List.finRange n).foldlM (visitSlot g) ⟨rows, curbits, 0⟩

/-- The `for (;;)` loop, for at most `fuel` passes. -/
def fixLoop : ℕ → Rows n → Row n → Option (Rows n)
  | 0, _, _ => none
  | fuel + 1, rows, curbits => do
    let st ← pass g rows curbits
    if st.cont = 0 then some st.rows else fixLoop fuel st.rows st.curbits

/-- The rows a call leaves; FUN_004f8b60 is given by what it does to the globals. -/
def fun00505340 (fun004f8b60 : Globals n → Globals n) (fuel : ℕ) (hackChk : Bool)
    (hackData : Option CString) (g : Globals n) (mem : Heap n) : Option (Rows n) :=
  fixLoop (fun004f8b60 g) fuel (prelude hackChk hackData g mem).rows mem.curbits

end Metroskrew.Patch
