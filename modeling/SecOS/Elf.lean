import SecOS.Vma
import SecOS.Library.Bytes

/-! ELF images (mm/elf.c, mm/elf_manifest.c): the demand-paging loader and the parser
of the signed manifest. An image is a buffer of kernel memory, and pointers into it
are 64-bit addresses, so an offset of the file may lead outside the buffer. -/

namespace SecOS.Elf
open Library Vmm

def userDataBase : Nat := 0x200000000

structure Image where
  kmem : Nat → UInt8
  base : Nat
  size : Nat

def Image.from (im : Image) (ptr : Nat) : Bytes := fun i => im.kmem ((ptr + i) % 2 ^ 64)

def sizeofEhdr : Nat := 64
def sizeofPhdr : Nat := 56

namespace Image

def entry (im : Image) : Nat := (im.from im.base).rd 8 24
def phoff (im : Image) : Nat := (im.from im.base).rd 8 32
def phentsize (im : Image) : Nat := (im.from im.base).rd 2 54
def phnum (im : Image) : Nat := (im.from im.base).rd 2 56

def checkMagic (im : Image) : Bool := (im.from im.base).take 4 == [0x7F, 0x45, 0x4C, 0x46]

def phdr (im : Image) (i : Nat) : Nat := (im.base + im.phoff + i * sizeofPhdr) % 2 ^ 64

def phdrInside (im : Image) (i : Nat) : Bool := (im.phdr i + sizeofPhdr) % 2 ^ 64 ≤ (im.base + im.size) % 2 ^ 64

end Image

structure Phdr where
  type : Nat
  flags : Nat
  offset : Nat
  vaddr : Nat
  filesz : Nat
  memsz : Nat
  align : Nat

def Image.readPhdr (im : Image) (i : Nat) : Phdr :=
  let ph := im.from (im.phdr i)
  ⟨ph.rd 4 0, ph.rd 4 4, ph.rd 8 8, ph.rd 8 16, ph.rd 8 32, ph.rd 8 40, ph.rd 8 48⟩

def ptLoad : Nat := 1
def ptNote : Nat := 4

namespace Phdr

def exec (ph : Phdr) : Bool := ph.flags.testBit 0
def write (ph : Phdr) : Bool := ph.flags.testBit 1

end Phdr

inductive Error where
  | magic
  | fmt
  | range
  | flag
  | map
deriving DecidableEq, Repr

def codeFlags : Flags := ⟨flagUser, flagUser_plain⟩
def dataFlags : Flags := ⟨flagUser ||| flagRw ||| flagNoexec, dataFlags_plain⟩

/-- One program header: nothing, a refusal, or one more region and its bytes. -/
def loadSegment (im : Image) (ph : Phdr) (st : List Vma × Nat) : Except Error (List Vma × Nat) :=
  if ph.type ≠ ptLoad then .ok st
  else if ph.memsz = 0 ∧ ph.filesz = 0 then .ok st
  else if ph.exec ∧ ph.write then .error .flag
  else if (ph.offset + ph.filesz) % 2 ^ 64 > im.size then .error .range
  else if ph.exec ∧ (ph.vaddr < userCodeBase ∨ ph.vaddr ≥ userDataBase) then .error .range
  else if ¬ ph.exec ∧ (ph.vaddr < userDataBase ∨ ph.vaddr ≥ userStackTop - 0x100000) then .error .range
  else if ph.align ≠ 0 ∧ ph.align ≠ 0x1000 then .error .fmt
  else
    let memsz := if ph.memsz < ph.filesz then ph.filesz else ph.memsz
    let start := ph.vaddr / 4096 * 4096
    let stop := (ph.vaddr + memsz + 0xFFF) % 2 ^ 64 / 4096 * 4096
    match Vma.add st.1 start stop (if ph.exec then codeFlags else dataFlags) .file im.base ph.offset
        (ph.vaddr - start) ph.filesz with
    | none => .error .map
    | some set => .ok (set, (st.2 + (stop + 2 ^ 64 - start)) % 2 ^ 64)

def loadSegments (im : Image) : Nat → Nat → List Vma × Nat → Except Error (List Vma × Nat)
  | 0, _, st => .ok st
  | n + 1, i, st =>
    if !im.phdrInside i then .error .range
    else match loadSegment im (im.readPhdr i) st with
      | .error e => .error e
      | .ok st => loadSegments im n (i + 1) st

structure Loaded where
  entry : Nat
  vmas : List Vma
  footprint : Nat

def elfLoadImageLazy (im : Image) (vset : List Vma) : Except Error Loaded :=
  if im.size < sizeofEhdr then .error .fmt
  else if !im.checkMagic then .error .magic
  else if im.phoff = 0 ∨ im.phnum = 0 then .error .fmt
  else if im.phentsize ≠ sizeofPhdr then .error .fmt
  else match loadSegments im im.phnum 0 (vset, 0) with
    | .error e => .error e
    | .ok (vmas, footprint) => .ok ⟨im.entry, vmas, footprint⟩

inductive ManifestError where
  | notFound
  | fmt
  | range
  | unsupported
deriving DecidableEq, Repr

structure Manifest where
  version : Nat
  flags : BitVec 32
  maxMem : Nat
  entryHint : Nat
  procType : Nat
  devId : Nat
  devCaps : BitVec 32
deriving DecidableEq

def secosNoteType : Nat := 0x51534543
def manifestVersionDriver : Nat := 2
def manifestProcTypeUser : Nat := 0
def manifestProcTypeDriver : Nat := 1
def sizeofManifestRaw : Nat := 40

def align4 (n : Nat) : Nat := (n + 3) % 2 ^ 32 / 4 * 4

def secosName : List UInt8 := [0x53, 0x45, 0x43, 0x4F, 0x53]

/-- The note at a pointer: name size, description size, type, and the two pointers behind them. -/
structure Note where
  namesz : Nat
  descsz : Nat
  type : Nat
  name : List UInt8
  desc : Nat
  next : Nat

def Image.note (im : Image) (ptr : Nat) : Note :=
  let b := im.from ptr
  let namesz := b.rd 4 0
  let descsz := b.rd 4 4
  let desc := (ptr + 12 + align4 namesz) % 2 ^ 64
  ⟨namesz, descsz, b.rd 4 8, (im.from (ptr + 12)).take 5, desc, (desc + align4 descsz) % 2 ^ 64⟩

def Note.isManifest (note : Note) : Bool :=
  note.namesz ≠ 0 && note.descsz ≠ 0 && note.type == secosNoteType && decide (note.namesz ≥ 6) && note.name == secosName &&
    decide (note.descsz ≥ 24)

/-- A pointer passes at most this often through a note: every note has twelve bytes at least. -/
def noteRounds : Nat := 2 ^ 64

/-- The first manifest in the notes up to `stop`: its description and the size of it. -/
def findManifest (im : Image) (stop : Nat) : Nat → Nat → Option (Nat × Nat)
  | 0, _ => none
  | rounds + 1, ptr =>
    if (ptr + 12) % 2 ^ 64 > stop then none
    else
      let note := im.note ptr
      if note.next > stop then none
      else if note.isManifest then some (note.desc, note.descsz)
      else findManifest im stop rounds note.next

def manifestNotes (im : Image) : Nat → Nat → Except ManifestError (Nat × Nat)
  | 0, _ => .error .notFound
  | n + 1, i =>
    if !im.phdrInside i then .error .range
    else
      let ph := im.readPhdr i
      if ph.type ≠ ptNote then manifestNotes im n (i + 1)
      else if (ph.offset + ph.filesz) % 2 ^ 64 > im.size then .error .range
      else
        let ptr := (im.base + ph.offset) % 2 ^ 64
        match findManifest im ((ptr + ph.filesz) % 2 ^ 64) noteRounds ptr with
        | some raw => .ok raw
        | none => manifestNotes im n (i + 1)

/-- The driver fields count only if the version declares them and the description holds them. -/
def readManifest (im : Image) (desc descsz : Nat) : Manifest :=
  let raw := im.from desc
  let version := raw.rd 4 0
  let driver := manifestVersionDriver ≤ version ∧ sizeofManifestRaw ≤ descsz
  { version := version
    flags := BitVec.ofNat 32 (raw.rd 4 4)
    maxMem := raw.rd 8 8
    entryHint := raw.rd 8 16
    procType := if driver then raw.rd 4 24 else manifestProcTypeUser
    devId := if driver then raw.rd 4 28 else 0
    devCaps := if driver then BitVec.ofNat 32 (raw.rd 4 32) else 0#32 }

def elfManifestParse (im : Image) : Except ManifestError Manifest :=
  if im.size < sizeofEhdr then .error .fmt
  else if im.phoff = 0 ∨ im.phnum = 0 then .error .notFound
  else if im.phentsize ≠ sizeofPhdr then .error .fmt
  else match manifestNotes im im.phnum 0 with
    | .error e => .error e
    | .ok (desc, descsz) => .ok (readManifest im desc descsz)

def elfManifestValidate (mf : Manifest) (realEntry : Nat) : Except ManifestError Unit :=
  if mf.entryHint ≠ 0 ∧ mf.entryHint ≠ realEntry then .error .unsupported else .ok ()

end SecOS.Elf
