import AbiBuild.Text.Lines
import AbiBuild.Text.Quoted

namespace AbiBuild.Text

abbrev Bytes := List UInt8

inductive Utf8Fault
  | badStart
  | badContinuation
  | cutShort
  deriving DecidableEq, Repr

def Utf8Fault.reason : Utf8Fault → String
  | .badStart => "invalid start byte"
  | .badContinuation => "invalid continuation byte"
  | .cutShort => "unexpected end of data"

-- The bytes at `position` and the `extra` ones after it could not be read.
structure Utf8Error where
  first : UInt8
  position : Nat
  extra : Nat
  fault : Utf8Fault
  deriving DecidableEq, Repr

def Utf8Error.message (e : Utf8Error) : String :=
  let place := if e.extra = 0 then
      s!"byte 0x{String.ofList (hex 2 e.first.toNat)} in position {e.position}"
    else s!"bytes in position {e.position}-{e.position + e.extra}"
  "'utf-8' codec can't decode " ++ place ++ ": " ++ e.fault.reason

-- How many bytes follow a first byte, and the closed range of the byte right after it. The narrowed
-- ranges leave out overlong forms, surrogates and points above U+10FFFF.
def leadOf (b : UInt8) : Option (Nat × UInt8 × UInt8) :=
  if 0xC2 ≤ b ∧ b ≤ 0xDF then some (1, 0x80, 0xBF)
  else if b = 0xE0 then some (2, 0xA0, 0xBF)
  else if b = 0xED then some (2, 0x80, 0x9F)
  else if 0xE1 ≤ b ∧ b ≤ 0xEF then some (2, 0x80, 0xBF)
  else if b = 0xF0 then some (3, 0x90, 0xBF)
  else if b = 0xF4 then some (3, 0x80, 0x8F)
  else if 0xF1 ≤ b ∧ b ≤ 0xF3 then some (3, 0x80, 0xBF)
  else none

def tailBits (b : UInt8) : Nat := b.toNat % 64

def isTail (b : UInt8) : Bool := 0x80 ≤ b && b ≤ 0xBF

def decodeFrom (position : Nat) : Bytes → Except Utf8Error (List Char)
  | [] => .ok []
  | b :: rest =>
    let stop (extra : Nat) (fault : Utf8Fault) : Except Utf8Error (List Char) :=
      .error ⟨b, position, extra, fault⟩
    if b < 0x80 then (decodeFrom (position + 1) rest).map (Char.ofNat b.toNat :: ·)
    else match leadOf b with
      | none => stop 0 .badStart
      | some (width, low, high) =>
        match rest with
        | [] => stop 0 .cutShort
        | c :: rest =>
          if c < low || high < c then stop 0 .badContinuation
          else if width = 1 then
            (decodeFrom (position + 2) rest).map
              (Char.ofNat (b.toNat % 32 * 64 + tailBits c) :: ·)
          else match rest with
            | [] => stop 1 .cutShort
            | d :: rest =>
              if !isTail d then stop 1 .badContinuation
              else if width = 2 then
                (decodeFrom (position + 3) rest).map
                  (Char.ofNat ((b.toNat % 16 * 64 + tailBits c) * 64 + tailBits d) :: ·)
              else match rest with
                | [] => stop 2 .cutShort
                | e :: rest =>
                  if !isTail e then stop 2 .badContinuation
                  else (decodeFrom (position + 4) rest).map
                    (Char.ofNat (((b.toNat % 8 * 64 + tailBits c) * 64 + tailBits d) * 64
                      + tailBits e) :: ·)

def decode (bytes : Bytes) : Except Utf8Error (List Char) := decodeFrom 0 bytes

def encode (s : String) : Bytes := s.toUTF8.toList

-- A text file: UTF-8, with its line endings made one.
def readText (bytes : Bytes) : Except Utf8Error String :=
  (decode bytes).map fun cs => String.ofList (unifyNewlines cs)

end AbiBuild.Text
