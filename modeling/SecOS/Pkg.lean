import SecOS.Library.Bytes

/-! Installing a signed package (`pkg_install` of kernel/pkg.c). Offsets are relative to the
buffer and have 64 bits, so an offset may lead anywhere in memory; `b` is memory as seen
from the buffer. The call keeps the list of the ranges it reads. -/

namespace SecOS.Pkg
open Library

def sizeofHdr : Nat := 64
def sizeofEnt : Nat := 152

def magic : List UInt8 := [0x53, 0x45, 0x43, 0x4F, 0x53, 0x50, 0x4B, 0x47]

structure Ent where
  path : List UInt8
  type : Nat
  dataOffset : Nat
  dataSize : Nat

def ent (b : Bytes) (i : Nat) : Ent :=
  let e := b.drop (sizeofHdr + i * sizeofEnt)
  ⟨(e.take 127).takeWhile (· ≠ 0), e.rd 4 132, e.rd 8 136, e.rd 8 144⟩

def slice (b : Bytes) (off n : Nat) : List UInt8 := (List.range n).map fun i => b ((off + i) % 2 ^ 64)

structure Vfs (σ : Type*) where
  create : List UInt8 → List UInt8 → σ → σ × Bool
  mkdir : List UInt8 → σ → σ

/-- What a call leaves: the file systems, the ranges it has read, and the number of entries
installed or an error. -/
structure Outcome (σ : Type*) where
  vfs : σ
  reads : List (Nat × Nat)
  result : Option Nat

/-- The `int` that is returned: the count of entries wraps. -/
def returned : Option Nat → Int
  | none => -1
  | some done => if done % 2 ^ 32 < 2 ^ 31 then done % 2 ^ 32 else (done % 2 ^ 32 : Nat) - (2 ^ 32 : Int)

section
variable {σ : Type*}

def Outcome.after (r : Outcome σ) (reads : List (Nat × Nat)) : Outcome σ := { r with reads := reads ++ r.reads }

def unpack (fs : Vfs σ) (b : Bytes) (sigOff : Nat) : Nat → Nat → Nat → σ → Outcome σ
  | 0, _, done, v => ⟨v, [], some done⟩
  | left + 1, i, done, v =>
    let e := ent b i
    let here := (sizeofHdr + i * sizeofEnt, sizeofEnt)
    if e.type = 1 then (unpack fs b sigOff left (i + 1) (done + 1) (fs.mkdir e.path v)).after [here]
    else if (e.dataOffset + e.dataSize) % 2 ^ 64 > sigOff then ⟨v, [here], none⟩
    else
      match fs.create e.path (slice b e.dataOffset e.dataSize) v with
      | (v, ok) => (unpack fs b sigOff left (i + 1) (if ok then done + 1 else done) v).after [here, (e.dataOffset, e.dataSize)]

/-- What is hashed: the file with 64 zeros in place of the signature. -/
def signed (b : Bytes) (len sigOff : Nat) : List UInt8 :=
  slice b 0 sigOff ++ List.replicate 64 0 ++ slice b ((sigOff + 64) % 2 ^ 64) ((len + 2 ^ 65 - sigOff - 64) % 2 ^ 64)

/-- `accepts` is the check of a signature against the hash of the message. -/
def pkgInstall (accepts : List UInt8 → List UInt8 → Bool) (fs : Vfs σ) (b : Bytes) (len : Nat) (v : σ) : Outcome σ :=
  if len < sizeofHdr then ⟨v, [], none⟩
  else if b.take 8 ≠ magic ∨ b.rd 4 8 ≠ 1 then ⟨v, [(0, 12)], none⟩
  else
    let sigOff := b.rd 8 16
    let n := b.rd 4 12
    if (sigOff + 64) % 2 ^ 64 > len then ⟨v, [(0, 24)], none⟩
    else if sizeofHdr + n * sizeofEnt > sigOff then ⟨v, [(0, 24)], none⟩
    else
      let reads := [(0, 24), (0, sigOff), ((sigOff + 64) % 2 ^ 64, (len + 2 ^ 65 - sigOff - 64) % 2 ^ 64), (sigOff, 64)]
      if !accepts (signed b len sigOff) (slice b sigOff 64) then ⟨v, reads, none⟩
      else (unpack fs b sigOff n 0 0 v).after reads

end
end SecOS.Pkg
