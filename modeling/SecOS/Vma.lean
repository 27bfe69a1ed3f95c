import SecOS.PageCache
import SecOS.Vmm

/-! Virtual memory areas of a process (mm/vma.c): a table of at most 64 regions
whose pages are made one at a time by the fault handler. A removed region leaves
a tombstone that the next one reuses. Pointers are addresses, 0 for none. -/

namespace SecOS
open Library Pmm Vmm Function

def vmaMax : Nat := 64

inductive VmaType where
  | anon
  | file
  | phys
  | none
deriving DecidableEq, Repr

/-- File content occupies region offsets `[filePad, filePad + fileLen)` of an image
backed region; a page-cache backed one has an inode and the file offset of its start. -/
structure Vma where
  start : Nat
  stop : Nat
  flags : Flags
  type : VmaType
  fileBase : Nat
  fileOff : Nat
  filePad : Nat
  fileLen : Nat
  fileInode : Nat
  fileVoff : Nat
  physBase : Nat
deriving DecidableEq

namespace Vma

def live (v : Vma) : Bool := v.type ≠ .none

def covers (v : Vma) (addr : Nat) : Bool := v.live && decide (v.start ≤ addr) && decide (addr < v.stop)

def place (set : List Vma) (v : Vma) : Option (List Vma) :=
  match set.findIdx? (fun old => !old.live) with
  | some i => some (set.set i v)
  | none => if set.length ≥ vmaMax then none else some (set ++ [v])

def add (set : List Vma) (start stop : Nat) (flags : Flags) (type : VmaType) (fileBase fileOff filePad fileLen : Nat) :
    Option (List Vma) :=
  place set ⟨start, stop, flags, type, fileBase, fileOff, filePad, fileLen, 0, 0, 0⟩

def find (set : List Vma) (addr : Nat) : Option Vma := set.find? (·.covers addr)

def findMut (set : List Vma) (addr : Nat) : Option Nat := set.findIdx? (·.covers addr)

/-- The physical base goes to the first region found at `start`. -/
def addPhys (set : List Vma) (start stop : Nat) (flags : Flags) (phys : Nat) : Option (List Vma) :=
  if start % 4096 ≠ 0 ∨ stop % 4096 ≠ 0 ∨ phys % 4096 ≠ 0 ∨ stop ≤ start then none
  else match add set start stop flags .phys 0 0 0 0 with
    | none => none
    | some set =>
      match findMut set start with
      | none => none
      | some i => some (set.modify i fun v => { v with physBase := phys })

def addFile (set : List Vma) (start stop : Nat) (flags : Flags) (inode voff : Nat) : Option (List Vma) :=
  match add set start stop flags .file 0 0 0 0 with
  | none => none
  | some set =>
    match findMut set start with
    | none => none
    | some i => some (set.modify i fun v => { v with fileInode := inode, fileVoff := voff })

def remove (set : List Vma) (i : Nat) : List Vma :=
  set.modify i fun v => { v with type := .none, start := 0, stop := 0 }

def upper (v : Vma) (addr : Nat) : Vma :=
  let d := addr - v.start
  let hi := { v with start := addr }
  match v.type with
  | .phys => { hi with physBase := (v.physBase + d) % 2 ^ 64 }
  | .file =>
    if v.fileInode ≠ 0 then { hi with fileVoff := (v.fileVoff + d) % 2 ^ 64 }
    else if d ≤ v.filePad then { hi with filePad := v.filePad - d }
    else
      let skip := d - v.filePad
      if skip ≥ v.fileLen then { hi with fileLen := 0, filePad := 0 }
      else { hi with fileOff := (v.fileOff + skip) % 2 ^ 64, fileLen := v.fileLen - skip, filePad := 0 }
  | _ => hi

/-- Cut region `i` at `addr`. The new slot is looked up again by its bounds, since
the old region still covers them. -/
def split (set : List Vma) (i addr : Nat) : List Vma × Bool :=
  match set[i]? with
  | none => (set, false)
  | some v =>
    if !v.live then (set, false)
    else if addr % 4096 ≠ 0 ∨ addr ≤ v.start ∨ addr ≥ v.stop then (set, false)
    else
      let hi := upper v addr
      match add set hi.start hi.stop hi.flags hi.type hi.fileBase hi.fileOff hi.filePad hi.fileLen with
      | none => (set, false)
      | some set =>
        match (List.range set.length).find? (fun j => j ≠ i && (set[j]?.any fun c => c.live && c.start == addr && c.stop == hi.stop)) with
        | none => (set, false)
        | some j =>
          let set := set.modify j fun c =>
            { c with fileInode := hi.fileInode, fileVoff := hi.fileVoff, physBase := hi.physBase }
          (set.modify i fun c => { c with stop := addr }, true)

def overlaps (set : List Vma) (start stop : Nat) : Bool :=
  set.any fun v => v.live && decide (start < v.stop) && decide (v.start < stop)

def totalBytes (set : List Vma) : Nat :=
  (set.filter (·.live)).foldl (fun total v => (total + (v.stop + 2 ^ 64 - v.start)) % 2 ^ 64) 0

/-- What a fault reads besides the region: kernel memory, which holds the pinned
images, and the files behind the page cache. -/
structure Env where
  kmem : Nat → UInt8
  files : PageCache.Files

/-- Byte `i` of an image backed page: the overlap of the content window with the
page is copied, the rest is zero. -/
def imageByte (env : Env) (v : Vma) (pg i : Nat) : UInt8 :=
  let poff := pg - v.start
  let cstart := v.filePad
  let cend := (v.filePad + v.fileLen) % 2 ^ 64
  let ovS := if poff > cstart then poff else cstart
  let ovE := if poff + 0x1000 < cend then poff + 0x1000 else cend
  if ovS < ovE ∧ ovS - poff ≤ i ∧ i < ovE - poff then
    env.kmem ((v.fileBase + (v.fileOff + (ovS - cstart)) + (i - (ovS - poff))) % 2 ^ 64)
  else 0

def fillFrame (m : Pmm.State) (c : PageCache.Cache) (env : Env) (v : Vma) (pg frame : Nat) : Pmm.State × PageCache.Cache :=
  if v.type = .file ∧ v.fileInode ≠ 0 then
    let foff := (v.fileVoff + (pg - v.start)) % 2 ^ 64
    match PageCache.getPhys m c env.files v.fileInode foff with
    | (m, c, cphys) =>
      let page := if cphys ≠ 0 then m.mem (cphys / frameSize) else fun _ => 0
      ({ m with mem := update m.mem frame page }, c)
  else if v.type = .file ∧ v.fileBase ≠ 0 then
    ({ m with mem := update m.mem frame (imageByte env v pg) }, c)
  else ({ m with mem := update m.mem frame (fun _ => 0) }, c)

def faultIn (m : Pmm.State) (c : PageCache.Cache) (s : Space) (env : Env) (v : Vma) (addr : Nat) :
    Pmm.State × PageCache.Cache × Space × Int :=
  let pg := addr / 4096 * 4096
  if pg < v.start ∨ pg ≥ v.stop then (m, c, s, -2)
  else if v.flags.word.has flagProtnone then (m, c, s, -4)
  else if v.type = .phys then
    let phys := (v.physBase + (pg - v.start)) % 2 ^ 64
    match mapInSpace m s pg phys (v.flags.word ||| flagDevice ||| flagPwt ||| flagNoexec) with
    | (m, s, r) => (m, c, s, r)
  else
    let (m, frame) := allocFrame m
    if frame = 0 then (m, c, s, -3)
    else match fillFrame m c env v pg (frame / frameSize) with
      | (m, c) =>
        match mapInSpace m s pg frame v.flags.word with
        | (m, s, r) => if r ≠ 0 then (freeFrame m frame, c, s, r) else (m, c, s, 0)

end Vma
end SecOS
