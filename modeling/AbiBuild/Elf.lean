import AbiBuild.Text.Utf8

namespace AbiBuild.Elf
open AbiBuild.Text

def magic : Bytes := [0x7F, 0x45, 0x4C, 0x46]

def headerSize : Nat := 20

def machine? (content : Bytes) : Option Nat :=
  if content.length < headerSize ∨ content.take 4 ≠ magic then none
  else
    let low := (content.getD 18 0).toNat
    let high := (content.getD 19 0).toNat
    some (if content.getD 5 0 = 1 then low + 256 * high else 256 * low + high)

end AbiBuild.Elf
