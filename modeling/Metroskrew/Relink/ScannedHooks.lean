import Metroskrew.Patch.Hooks
import Metroskrew.Relink.LinkedSymbols

/-! The places that scan.c finds, in the relinked program: what runs there, and what the symbols that are
printed for them point at. -/

namespace Metroskrew.Relink.ScannedHooks

open Metroskrew.Library Metroskrew.Library.Linking Metroskrew.Library.MachineCode
open Metroskrew.Patch Metroskrew.Patch.Hooks Metroskrew.Patch.PatchMacros

def rawByte : OutByte → Option UInt8
  | .raw b => some b
  | .sym _ _ => none

/-- The bytes in memory that are known when the program is linked. -/
def rawMemory (placed : List (Placement OutByte)) (a : ℕ) : Option UInt8 :=
  (memory placed a).bind rawByte

/-- `wjmp` puts an underscore in front of the name on Windows. -/
def wname (win : Bool) (name : String) : CString := (if win then ascii "_" else []) ++ ascii name

/-- Where the linker has the functions and variables that patch.i names. -/
def externsOf (win : Bool) (value : CString → ℕ) : Externs where
  mainArgc := (value (ascii "main_argc")).toUInt32
  mainArgv := (value (ascii "main_argv")).toUInt32
  patchGetenv := (value (wname win "patch_getenv")).toUInt32
  depfileBuild := (value (wname win "depfile_build")).toUInt32
  fun00505340 := (value (wname win "FUN_00505340")).toUInt32

variable {t : Tables} {win : Bool} {file : PeFile} {out : AsmDump} {uses : List Use}
  {bytes : List UInt8} {table x : ℕ} {rest placed : List (Placement OutByte)} {sec : PeSection}

lemma text_rawMemory (hl : Linkable t file uses bytes table rest) (h : Dumped t win file out)
    (hplaced : relink file.f out bytes table rest = some placed) (hsec : SectionAt file x sec)
    (hshort : sec.short = ascii "text") {i : ℕ} (hi : i < sec.vsize) :
    rawMemory placed (sec.address + i) = some (patchedByte (byteAt file.f) uses (sec.offset + i)) := by
  rw [rawMemory, hl.text_memory h hplaced hsec hshort hi]
  rfl

/-- The body of a use is in memory, at the place of its block. -/
lemma use_stored (hl : Linkable t file uses bytes table rest) (h : Dumped t win file out)
    (hplaced : relink file.f out bytes table rest = some placed) (hsec : SectionAt file x sec)
    (hshort : sec.short = ascii "text") {u : Use} (hu : u ∈ uses) :
    Stored (rawMemory placed) (textPlace ⟨sec.offset, sec.vsize, sec.address⟩ u.code) u.body := by
  have hordered := (hl.spaced x sec hsec hshort).ordered
  have hlo := hordered.lo_le_code u hu
  obtain ⟨hbody, hhi⟩ := hordered.codeEnd_le u hu
  intro k hk
  have hplace : textPlace ⟨sec.offset, sec.vsize, sec.address⟩ u.code + k =
      sec.address + (u.code - sec.offset + k) := by
    rw [textPlace]
    dsimp only
    omega
  have hpos : sec.offset + (u.code - sec.offset + k) = u.code + k := by omega
  rw [hplace, text_rawMemory hl h hplaced hsec hshort (by omega), hpos,
    patchedByte_block hordered hu ⟨by omega, by omega⟩, Use.byte]
  simp [List.getElem?_eq_getElem hk]

variable {found locs : List Loc} {text : TextDefs}

lemma symbols_addr {loc : Loc} (hnodup : (locs.map Loc.name).Nodup) (hloc : loc ∈ locs)
    (hstop : loc.stop ≠ 0) {a : ℕ} (ha : symbols text locs (.addr loc.name) = some a) :
    text.peTextOff ≤ loc.start ∧ loc.start < text.peTextOff + text.peTextLen ∧
      a = textPlace text loc.start := by
  rw [symbols_eq hnodup hloc rfl] at ha
  unfold printLoc at ha
  dsimp only at ha
  rw [if_pos hstop] at ha
  have hwrap := Nat.mod_le (text.peTextOff + text.peTextLen) (2 ^ 32)
  split_ifs at ha with hne hin hin
  all_goals simp [assign] at ha
  · exact ⟨hin.1, lt_of_lt_of_le hin.2.1 hwrap, ha.symm⟩
  · exact ⟨hin.1, lt_of_lt_of_le hin.2.1 hwrap, ha.symm⟩

/-- From the executable to the linked program, over whatever `scan_bin` finds in it: at the place of each
block that patch.i patches, disassembly gives the instructions of its macro, with the jumps going
to where the linker has the functions; what is brought in stands where the linker puts it; and each
`addr_X` is the address at which the program has the code that the executable has at `code_X`,
unless that is patched. -/
theorem hooks_linked (win : Bool) (file : PeFile) (t : Tables) (out : AsmDump)
    (found locs : List Loc) (uses : List Use) (bytes : List UInt8) (table : ℕ)
    (rest placed : List (Placement OutByte)) (outside : CString → ℕ) (x : ℕ) (sec : PeSection)
    (ht : readTables file = .ok t) (hout : dumpAsm win file = .ok out)
    (hsec : SectionAt file x sec) (hshort : sec.short = ascii "text")
    (hscan : scanBin file.f = some ⟨some ⟨sec.offset, sec.vsize, sec.address⟩, found⟩)
    (hprinted : locs.Perm found)
    (huses : hookUses (externsOf win (symbolValue file.f out table outside))
      ⟨sec.offset, sec.vsize, sec.address⟩ (symbols ⟨sec.offset, sec.vsize, sec.address⟩ locs) =
        some uses)
    (hl : Linkable t file uses bytes table rest)
    (hplaced : relink file.f out bytes table rest = some placed) :
    let externs := externsOf win (symbolValue file.f out table outside)
    let text : TextDefs := ⟨sec.offset, sec.vsize, sec.address⟩
    let syms := symbols text locs
    let mem := rawMemory placed
    (∀ hook code is, syms (.code hook.name) = some code → instrs externs syms hook = some is →
      disassemble mem is.length (textPlace text code) = some is) ∧
    (∀ p ∈ rest, ∀ a, p.Covers a → memory placed a = memory rest a) ∧
    ∀ name a code, syms (.addr name) = some a → syms (.code name) = some code →
      a = textPlace text code ∧
      ((∀ u ∈ uses, ¬ u.covers code) → mem a = some (byteAt file.f code)) := by
  intro externs text syms mem
  have h := dumpAsm_dumped ht hout
  have hnodup : (locs.map Loc.name).Nodup :=
    (hprinted.map Loc.name).nodup_iff.mpr (printedNames_nodup.sublist (scanBin_printed hscan).names)
  refine ⟨?_, ?_, ?_⟩
  · intro hook code is hcode his
    obtain ⟨u, hu, huse⟩ := use_of_code huses hcode
    obtain ⟨is', his', hbody⟩ := huse.body
    obtain rfl : is = is' := Option.some.inj (his.symm.trans his')
    obtain rfl : code = u.code := Option.some.inj (hcode.symm.trans huse.code)
    apply disassemble_assemble
    rw [← hbody]
    exact use_stored hl h hplaced hsec hshort hu
  · intro p hp a hcovers
    obtain ⟨hno, htable⟩ := hl.rest p hp a hcovers
    exact hl.rest_memory h hplaced hno htable
  · intro name a code ha hcode
    obtain ⟨loc, hloc, rfl⟩ := loc_of_symbol hcode
    have hstart : (if loc.stop ≠ 0 then some loc.start else none) = some code :=
      (symbols_code hnodup hloc).symm.trans hcode
    split_ifs at hstart with hstop
    obtain rfl := Option.some.inj hstart
    obtain ⟨hlo, hhi, rfl⟩ := symbols_addr hnodup hloc hstop ha
    refine ⟨rfl, fun hnone => ?_⟩
    have hplace : textPlace text loc.start = sec.address + (loc.start - sec.offset) := Nat.add_comm _ _
    have hpos : sec.offset + (loc.start - sec.offset) = loc.start := Nat.add_sub_cancel' hlo
    rw [hplace]
    refine (text_rawMemory hl h hplaced hsec hshort (Nat.sub_lt_left_of_lt_add hlo hhi)).trans ?_
    rw [hpos, patchedByte_outside hnone]

def startupSymbols (name : CString) : ℕ :=
  if name = ascii "main_argc" then 0x411000
  else if name = ascii "main_argv" then 0x411004
  else if name = ascii "patch_getenv" then 0x410000
  else if name = ascii "depfile_build" then 0x410010
  else 0x410020

/-- What stood at `getenv` is now a jump to the function that is brought in, and its code is there. -/
theorem hooks_linked_startup : ∃ bytes placed,
    relink startupImage startupDump bytes 0x420000 startupRest = some placed ∧
    disassemble (rawMemory placed) 1 0x401071 = some [.jmp 0x410000] ∧
    memory placed 0x410000 = some (.raw 0xc3) := by
  obtain ⟨bytes, hbytes⟩ := startup_text_made
  obtain ⟨placed, hplaced⟩ := startup_links bytes
  have hexterns : externsOf false (symbolValue startupFile.f startupDump 0x420000 startupSymbols) =
      startupExterns := by decide +kernel
  obtain ⟨hhooks, hrest, -⟩ := hooks_linked false startupFile startupTables startupDump startupLocs
    startupLocs startupUses bytes 0x420000 startupRest placed startupSymbols 0
    _ startup_read.1 startup_read.2.1 (startup_section (by decide)) (by decide) startup_scanned (List.Perm.refl _) (hexterns.symm ▸ startup_used)
    (startup_linkable hbytes) hplaced
  refine ⟨bytes, placed, hplaced, ?_, ?_⟩
  · exact hhooks .getenv 0x2c1 [.jmp 0x410000] (by decide +kernel) (by rw [hexterns]; rfl)
  · exact hrest _ List.mem_cons_self 0x410000 ⟨by decide, by decide⟩

end Metroskrew.Relink.ScannedHooks
