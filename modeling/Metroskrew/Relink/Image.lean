import Metroskrew.Bytes
import Metroskrew.Library.Memory

/-! The headers of an executable as bytes. -/

namespace Metroskrew.Relink

def word (n : ℕ) : List UInt8 := Library.Memory.numberBytes 4 n

/-- From the `PE` magic up to the section headers; the optional header takes `optSize` bytes. -/
def peBytes (sections optSize entrypoint base : ℕ) (datadirs : List (ℕ × ℕ)) : List UInt8 :=
  let optional := [[0x0b, 0x01], List.replicate 0xe 0, word entrypoint, List.replicate 8 0, word base,
    List.replicate 0x3c 0, word datadirs.length, datadirs.flatMap fun d => word d.1 ++ word d.2].flatten
  [ascii "PE", [0, 0, 0, 0], (word sections).take 2, List.replicate 0xc 0, (word optSize).take 2, [0, 0],
    optional, List.replicate (optSize - optional.length) 0].flatten

def sectionBytes (name : CString) (vsize address dsize offset flags : ℕ) : List UInt8 :=
  [name, List.replicate (8 - name.length) 0, word vsize, word address, word dsize, word offset,
    List.replicate 12 0, word flags].flatten

end Metroskrew.Relink
