import Mathlib

/-! The names of an NTFS volume (fs/ntfs.c): the UTF-16 of an index entry, and the UTF-8 in which
the driver shows a name and takes one. -/

namespace SecOS.Ntfs

/-- The code points of UTF-16; a surrogate without its partner stands for itself. -/
def points : List Nat → List Nat
  | [] => []
  | [c] => [c]
  | c :: d :: rest =>
    if 0xD800 ≤ c ∧ c < 0xDC00 ∧ 0xDC00 ≤ d ∧ d < 0xE000 then (0x10000 + (c - 0xD800) * 1024 + (d - 0xDC00)) :: points rest
    else c :: points (d :: rest)

def encodePoint (c : Nat) : List Nat :=
  if c < 0x80 then [c]
  else if c < 0x800 then [0xC0 + c / 64, 0x80 + c % 64]
  else if c < 0x10000 then [0xE0 + c / 4096, 0x80 + c / 64 % 64, 0x80 + c % 64]
  else [0xF0 + c / 262144, 0x80 + c / 4096 % 64, 0x80 + c / 64 % 64, 0x80 + c % 64]

/-- Every code point has to leave room for the end of the string. -/
def putPoints (cap : Nat) : List Nat → List Nat → Option (List Nat)
  | [], out => some out
  | c :: rest, out => if out.length + (encodePoint c).length ≥ cap then none else putPoints cap rest (out ++ encodePoint c)

def utf16To8 (units : List Nat) (cap : Nat) : Option (List Nat) := putPoints cap (points units) []

/-- The first byte of a sequence: its bits, and how many bytes follow. -/
def decodeLead (c : Nat) : Option (Nat × Nat) :=
  if c < 0x80 then some (c, 0)
  else if c / 32 = 6 then some (c % 32, 1)
  else if c / 16 = 14 then some (c % 16, 2)
  else if c / 8 = 30 then some (c % 8, 3)
  else none

def decodeTail : Nat → Nat → List Nat → Option (Nat × List Nat)
  | 0, cp, rest => some (cp, rest)
  | _ + 1, _, [] => none
  | need + 1, cp, cc :: rest => if cc / 64 ≠ 2 then none else decodeTail need (cp * 64 + cc % 64) rest

/-- A sequence that is longer than it has to be, or beyond the last code point. -/
def misencoded (need cp : Nat) : Bool := (need = 1 ∧ cp < 0x80) ∨ (need = 2 ∧ cp < 0x800) ∨ (need = 3 ∧ (cp < 0x10000 ∨ cp > 0x10FFFF))

def unitsOf (cp : Nat) : List Nat :=
  if 0x10000 ≤ cp then [0xD800 + (cp - 0x10000) / 1024, 0xDC00 + (cp - 0x10000) % 1024] else [cp]

def decodeAll : Nat → List Nat → List Nat → Option (List Nat)
  | _, [], out => some out
  | 0, _ :: _, _ => none
  | fuel + 1, c :: rest, out =>
    match decodeLead c with
    | none => none
    | some (cp, need) =>
      match decodeTail need cp rest with
      | none => none
      | some (cp, rest) =>
        if misencoded need cp then none
        else if out.length + (unitsOf cp).length > 255 then none
        else decodeAll fuel rest (out ++ unitsOf cp)

def utf8To16 (s : List Nat) : Option (List Nat) := decodeAll s.length s []

end SecOS.Ntfs
