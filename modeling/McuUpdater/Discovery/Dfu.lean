import McuUpdater.Lib.PyText
import McuUpdater.Lib.Bytes

/-! `discovery/dfu.py`: the serial that a board has in DFU. -/
namespace McuUpdater.Discovery
open PyText

def hexValue (c : Char) : Option Nat :=
  if '0' ≤ c ∧ c ≤ '9' then some (c.toNat - 48)
  else if 'a' ≤ c ∧ c ≤ 'f' then some (c.toNat - 87)
  else if 'A' ≤ c ∧ c ≤ 'F' then some (c.toNat - 55)
  else none

def isAsciiSpace (c : Char) : Bool := c = ' ' || 9 ≤ c.toNat && c.toNat ≤ 13

/-- `bytes.fromhex`: blanks may stand between bytes, not within one. -/
def fromHex : Str → Option Bytes
  | [] => some []
  | [c] => if isAsciiSpace c then some [] else none
  | c :: d :: s =>
    if isAsciiSpace c then fromHex (d :: s)
    else do
      let high ← hexValue c
      let low ← hexValue d
      let rest ← fromHex s
      return UInt8.ofNat (16 * high + low) :: rest

def hexDigit (n : Nat) : Char := Char.ofNat (if n < 10 then 48 + n else 55 + n)

/-- The lowest `w` hex digits, in upper case. -/
def upperHex : Nat → Nat → Str
  | 0, _ => []
  | w + 1, n => upperHex w (n / 16) ++ [hexDigit (n % 16)]

/-- `dfu_serial_for` -/
def dfuSerialFor (serial : Str) : Option Str :=
  if serial.length ≠ 24 then none
  else (fromHex serial).map fun raw =>
    let word0 := Bytes.word raw 0
    let word1 := Bytes.word raw 4
    let word2 := Bytes.word raw 8
    upperHex 8 ((word0 + word2) % 2 ^ 32) ++ upperHex 4 (word1 / 2 ^ 16)

example : dfuSerialFor "27000E000551343438333339".toList = some "3941335F3434".toList := by
  decide

end McuUpdater.Discovery
