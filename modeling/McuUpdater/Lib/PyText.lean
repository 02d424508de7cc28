import Mathlib.Data.List.DropRight

/-! Python strings as lists of characters: whitespace, `strip` and `join`. Nothing here names
a program. -/
namespace McuUpdater.PyText

abbrev Str := List Char

/-- Membership among texts, decided the same way in every module. -/
instance (s : Str) (l : List Str) : Decidable (s ∈ l) := List.instDecidableMemOfLawfulBEq s l

/-- The characters `str.isspace` accepts. -/
def isSpace (c : Char) : Bool :=
  let n := c.toNat
  (9 ≤ n && n ≤ 13) || (28 ≤ n && n ≤ 32) || n = 0x85 || n = 0xA0 || n = 0x1680 ||
    (0x2000 ≤ n && n ≤ 0x200A) || n = 0x2028 || n = 0x2029 || n = 0x202F || n = 0x205F ||
    n = 0x3000

def lstrip (s : Str) : Str := s.dropWhile isSpace
def rstrip (s : Str) : Str := s.rdropWhile isSpace
def strip (s : Str) : Str := rstrip (lstrip s)

/-- What is left of `s` after this beginning. -/
def after (start s : Str) : Option Str :=
  if start <+: s then some (s.drop start.length) else none

/-- `sep.join(parts)` -/
def joinWith (sep : Str) : List Str → Str
  | [] => []
  | [s] => s
  | s :: ss => s ++ sep ++ joinWith sep ss

abbrev Bytes := List UInt8

/-- `s.encode()` -/
def encode (s : Str) : Bytes := s.flatMap String.utf8EncodeChar

theorem encode_ne_nil {s : Str} (h : s ≠ []) : encode s ≠ [] := by
  cases s with
  | nil => exact absurd rfl h
  | cons c s => simp [encode, String.utf8EncodeChar_ne_nil]

end McuUpdater.PyText
