import SecOS.Exec
import SecOS.Proofs.Borrowing
import SecOS.Proofs.CowSafety
import SecOS.Proofs.MemoryLimit

/-! What a failed exec leaves behind. Up to the exchange of the images everything it takes is its
own; the one loss is in `vmm_space_create_user`, which forgets its two tables when the heap
refuses the block of the space. -/

namespace SecOS.Exec
open Library Pmm Vmm Elf List
open UserMemory (loadSegment_cases loadSegments_keeps load_cases aslrSlide_lt)

theorem kmalloc_cases (h : Heap) (answer : Option Nat) :
    kmalloc h answer = (h, none) ∨ ∃ a, a ∉ h.live ∧ kmalloc h answer = (⟨a :: h.live, h.bad⟩, some a) := by
  unfold kmalloc
  cases answer with
  | none => exact .inl rfl
  | some a =>
    simp only
    split
    · exact .inl rfl
    next fresh => exact .inr ⟨a, fresh, rfl⟩

theorem kfree_top (a : Nat) (live : List Nat) (bad : Nat) : kfree ⟨a :: live, bad⟩ a = ⟨live, bad⟩ := by
  unfold kfree
  rw [if_pos mem_cons_self, erase_cons_head]

theorem kfree_below {a : Nat} {live blocks : List Nat} {bad : Nat} (there : a ∈ live) (apart : a ∉ blocks) :
    kfree ⟨blocks ++ live, bad⟩ a = ⟨blocks ++ live.erase a, bad⟩ := by
  unfold kfree
  rw [if_pos (mem_append_right _ there), erase_append_right _ apart]

/-- The image buffer is gone, once; every other block and every frame is as it was. -/
structure GivenBack (mem mem' : Mem) (image : Nat) : Prop where
  frames : Restored mem.pmm mem'.pmm
  cache : mem'.cache = mem.cache
  heap : mem'.heap = ⟨mem.heap.live.erase image, mem.heap.bad⟩

/-- The blocks of the call lie on top of those there were. -/
structure Taken (h : Heap) (blocks : List Nat) (h' : Heap) : Prop where
  heap : h' = ⟨blocks ++ h.live, h.bad⟩
  fresh : ∀ b ∈ blocks, b ∉ h.live

section
variable {h h' : Heap} {blocks : List Nat}

theorem Taken.push (taken : Taken h blocks h') {a : Nat} (fresh : a ∉ h'.live) : Taken h (a :: blocks) ⟨a :: h'.live, h'.bad⟩ := by
  rw [taken.heap] at fresh ⊢
  refine ⟨rfl, fun b member => ?_⟩
  rcases mem_cons.mp member with rfl | old
  · exact fun live => fresh (mem_append_right _ live)
  · exact taken.fresh b old

theorem Taken.image (taken : Taken h blocks h') {image : Nat} (there : image ∈ h.live) :
    kfree h' image = ⟨blocks ++ h.live.erase image, h.bad⟩ := by
  rw [taken.heap]
  exact kfree_below there fun member => taken.fresh image member there

end

section
variable {mem mem0 : Mem} {nv image : Nat}

theorem freed_without_space (there : image ∈ mem0.heap.live) (taken : Taken mem0.heap [nv] mem.heap) (cache : mem.cache = mem0.cache)
    (frames : Restored mem0.pmm mem.pmm) : GivenBack mem0 ((procImageFree mem none image none).free nv) image := by
  refine ⟨frames, cache, ?_⟩
  change kfree (kfree mem.heap image) nv = _
  rw [taken.image there]
  exact kfree_top nv _ _

theorem freed_with_space (mf : Option Nat) (sb : SpaceBlock) (there : image ∈ mem0.heap.live)
    (taken : Taken mem0.heap (mf.toList ++ [sb.block, nv]) mem.heap) (cache : mem.cache = mem0.cache)
    (frames : Restored mem0.pmm (spaceDestroy mem.pmm sb.space)) :
    GivenBack mem0 ((procImageFree mem mf image (some sb)).free nv) image := by
  have below : ∀ h', Taken mem0.heap [sb.block, nv] h' →
      kfree (kfree (kfree h' image) sb.block) nv = ⟨mem0.heap.live.erase image, mem0.heap.bad⟩ := by
    intro h' rest
    rw [rest.image there]
    change kfree (kfree ⟨sb.block :: ([nv] ++ _), _⟩ sb.block) nv = _
    rw [kfree_top]
    exact kfree_top nv _ _
  cases mf with
  | none => exact ⟨frames, cache, below _ taken⟩
  | some b =>
    refine ⟨frames, cache, ?_⟩
    change kfree (kfree (kfree (kfree mem.heap b) image) sb.block) nv = _
    rw [taken.heap]
    change kfree (kfree (kfree (kfree ⟨b :: ([sb.block, nv] ++ _), _⟩ b) image) sb.block) nv = _
    rw [kfree_top]
    exact below _ ⟨rfl, fun a member => taken.fresh a (mem_cons_of_mem _ member)⟩

end

theorem add_private {set set' : List Vma} {start stop : Nat} {flags : Flags} {type : VmaType} {fileBase fileOff filePad fileLen : Nat}
    (own : ∀ v ∈ set, v.Private) (kind : type ≠ .phys)
    (added : Vma.add set start stop flags type fileBase fileOff filePad fileLen = some set') : ∀ v ∈ set', v.Private := by
  intro v member
  rcases Vma.place_cases added with ⟨k, _, _, _, rfl⟩ | ⟨_, rfl⟩
  · rcases mem_or_eq_of_mem_set member with old | rfl
    · exact own v old
    · exact ⟨kind, rfl⟩
  · rcases mem_append.mp member with old | new
    · exact own v old
    · rw [mem_singleton.mp new]
      exact ⟨kind, rfl⟩

theorem load_private {im : Image} {loaded : Loaded} (done : elfLoadImageLazy im [] = .ok loaded) : ∀ v ∈ loaded.vmas, v.Private := by
  refine loadSegments_keeps (P := fun st => ∀ v ∈ st.1, v.Private) im.phnum (fun j _ st st' own loads => ?_)
    (fun _ member => absurd member not_mem_nil) (load_cases done)
  rcases loadSegment_cases loads with rfl | ⟨_, set, start, stop, pad, flags, _, _, added, rfl⟩
  · exact own
  · exact add_private own (show VmaType.file ≠ .phys from nofun) added

section
variable {device : Nat → Prop} {m0 : Pmm.State} {rest base : Nat → Nat} {c : PageCache.Cache} {g : Stage} {t : Target}

/-- The space that is built has borrowed all its frames, and the page cache is not involved. -/
structure Building (device : Nat → Prop) (m0 : Pmm.State) (rest base : Nat → Nat) (c : PageCache.Cache) (t : Target) : Prop where
  borrow : Borrow device m0 rest base t.pmm t.space.leaves t.space.tables
  ordinary : Vma.Ordinary t.space
  cache : t.cache = c

theorem translate_leaf {kernel : Nat → Nat} {s : Space} {va : Nat} (ordinary : Vma.Ordinary s) (inside : va / 4096 ∈ window)
    (mapped : translate kernel s va ≠ 0) : 0 < s.leaves (translate kernel s va / frameSize) := by
  have bounds := mem_window.mp inside
  unfold translate at mapped ⊢
  rw [if_neg (by unfold kernelBase; omega)] at mapped ⊢
  dsimp only at mapped ⊢
  cases present : (s.pte (va / 4096)).has flagPresent with
  | false =>
    rw [present, if_neg Bool.false_ne_true] at mapped
    exact absurd rfl mapped
  | true =>
    rw [if_pos rfl]
    have taken : pteHasFrame (s.pte (va / 4096)) = true := by rw [pteHasFrame_eq, ← has_present, present, Bool.true_or]
    have aligned := ptePhys_aligned (s.pte (va / 4096))
    have frame : (ptePhys (s.pte (va / 4096)) + va % 4096) / frameSize = ptePhys (s.pte (va / 4096)) / frameSize := by
      unfold frameSize at aligned ⊢
      omega
    rw [frame]
    exact leaf_counted inside (owner_some.mpr ⟨taken, ordinary _ inside, rfl⟩)

theorem touch_building (own : ∀ v ∈ g.vmas, v.Private) (building : Building device m0 rest base c t) {va : Nat} (inside : va / 4096 ∈ window) :
    Building device m0 rest base c (touch g t va).1 ∧
      ∀ phys, (touch g t va).2 = some phys → 0 < (touch g t va).1.space.leaves (phys / frameSize) := by
  unfold touch
  split
  next mapped =>
    refine ⟨building, fun phys there => ?_⟩
    rw [← Option.some.inj there]
    exact translate_leaf building.ordinary inside mapped
  · split
    · exact ⟨building, nofun⟩
    next v found =>
      obtain ⟨cache, borrow, ordinary⟩ := Vma.faultIn_borrow (c := t.cache) building.borrow building.ordinary g.env
        (own v (mem_of_find?_eq_some found)) inside
      generalize Vma.faultIn t.pmm t.cache t.space g.env v va = r at cache borrow ordinary
      obtain ⟨m, c', s, res⟩ := r
      have after : Building device m0 rest base c ⟨m, c', s⟩ := ⟨borrow, ordinary, cache.trans building.cache⟩
      dsimp only
      split
      · exact ⟨after, nofun⟩
      split
      · exact ⟨after, nofun⟩
      next mapped =>
        refine ⟨after, fun phys there => ?_⟩
        rw [← Option.some.inj there]
        exact translate_leaf ordinary inside mapped

theorem poke_building (building : Building device m0 rest base c t) {phys : Nat} (held : 0 < t.space.leaves (phys / frameSize)) (bytes : List UInt8) :
    Building device m0 rest base c { t with pmm := poke t.pmm phys bytes } :=
  ⟨building.borrow.write (by omega) _, building.ordinary, building.cache⟩

theorem uwrite_building (own : ∀ v ∈ g.vmas, v.Private) (rounds va : Nat) (bytes : List UInt8) (building : Building device m0 rest base c t)
    (low : userCodeBase ≤ va) (high : va + bytes.length ≤ userStackTop) : Building device m0 rest base c (uwrite g rounds t va bytes).1 := by
  induction rounds generalizing t va bytes with
  | zero => exact building
  | succ rounds ih =>
    unfold uwrite
    split
    · exact building
    next more =>
      have some : 0 < bytes.length := List.length_pos_iff.mpr more
      unfold userCodeBase at low ih
      unfold userStackTop at high ih
      have inside : va / 4096 ∈ window := mem_window.mpr ⟨by omega, by omega⟩
      obtain ⟨after, held⟩ := touch_building own building inside
      generalize touch g t va = r at after held
      obtain ⟨t', phys⟩ := r
      cases phys with
      | none => exact after
      | some phys =>
        dsimp only at held ⊢
        have chunk : min (0x1000 - va % 0x1000) bytes.length ≤ bytes.length := Nat.min_le_right _ _
        generalize min (0x1000 - va % 0x1000) bytes.length = n at chunk
        have next : (va + n) % 2 ^ 64 = va + n := Nat.mod_eq_of_lt (by omega)
        rw [next]
        refine ih _ _ (poke_building after (held phys rfl) _) (by omega) ?_
        rw [length_drop]
        omega

theorem wordBytes_length (v : Nat) : (wordBytes v).length = 8 := by
  unfold wordBytes
  rw [length_map, length_range]

theorem word_building (own : ∀ v ∈ g.vmas, v.Private) (v : Nat) {slot : Nat} (building : Building device m0 rest base c t)
    (low : userCodeBase ≤ slot) (high : slot + 8 ≤ userStackTop) : Building device m0 rest base c (uwrite g 8 t slot (wordBytes v)).1 :=
  uwrite_building own 8 slot (wordBytes v) building low (by rw [wordBytes_length]; exact high)

theorem next_slot {slot : Nat} (high : slot + 8 ≤ userStackTop) : (slot + 8) % 2 ^ 64 = slot + 8 := by
  unfold userStackTop at high
  omega

theorem argPass_building (own : ∀ v ∈ g.vmas, v.Private) (blob : List UInt8) (strbase count slot off : Nat)
    (building : Building device m0 rest base c t) (low : userCodeBase ≤ slot) (high : slot + 8 * (count + 1) ≤ userStackTop) :
    Building device m0 rest base c (argPass g blob strbase count t slot off).1 ∧
      ∀ slot' off', (argPass g blob strbase count t slot off).2 = some (slot', off') → slot' = slot + 8 * (count + 1) := by
  induction count generalizing t slot off with
  | zero =>
    have after := word_building own 0 building low (by omega)
    unfold argPass
    generalize uwrite g 8 t slot (wordBytes 0) = r at after
    obtain ⟨t', ok⟩ := r
    cases ok with
    | false => exact ⟨after, nofun⟩
    | true =>
      refine ⟨after, fun slot' off' there => ?_⟩
      rw [← (Prod.mk.inj (Option.some.inj there)).1]
      exact next_slot (by omega)
  | succ count ih =>
    unfold argPass
    split
    · exact ⟨building, nofun⟩
    have after := word_building own (strbase + off) building low (by omega)
    generalize uwrite g 8 t slot (wordBytes (strbase + off)) = r at after
    obtain ⟨t', ok⟩ := r
    cases ok with
    | false => exact ⟨after, nofun⟩
    | true =>
      dsimp only at after ⊢
      rw [next_slot (by omega)]
      obtain ⟨rest, slots⟩ := ih (slot + 8) (off + ((blob.drop off).takeWhile (· ≠ 0)).length + 1) after (Nat.le_add_right_of_le low) (by omega)
      refine ⟨rest, fun slot' off' there => ?_⟩
      rw [slots slot' off' there]
      omega

theorem writeVectors_building (own : ∀ v ∈ g.vmas, v.Private) (args : Args) (strbase : Nat) {bottom : Nat}
    (building : Building device m0 rest base c t) (low : userCodeBase ≤ bottom)
    (high : bottom + 8 * (args.argc.toNat + args.envc.toNat + 3) ≤ userStackTop) :
    Building device m0 rest base c (writeVectors g args strbase bottom t).1 := by
  unfold writeVectors
  rw [next_slot (by omega)]
  have first := word_building own args.argc.toNat building low (by omega)
  generalize uwrite g 8 t bottom (wordBytes args.argc.toNat) = r at first
  obtain ⟨t1, ok⟩ := r
  cases ok with
  | false => exact first
  | true =>
    dsimp only at first ⊢
    obtain ⟨second, slots⟩ := argPass_building own args.blob strbase args.argc.toNat (bottom + 8) 0 first
      (Nat.le_add_right_of_le low) (by omega)
    generalize argPass g args.blob strbase args.argc.toNat t1 (bottom + 8) 0 = r at second slots
    obtain ⟨t2, place⟩ := r
    cases place with
    | none => exact second
    | some place =>
      obtain ⟨slot, off⟩ := place
      have reached := slots slot off rfl
      dsimp only at second ⊢
      have third := (argPass_building own args.blob strbase args.envc.toNat slot off second (by omega) (by omega)).1
      generalize argPass g args.blob strbase args.envc.toNat t2 slot off = r at third
      obtain ⟨t3, last⟩ := r
      cases last with
      | none => exact third
      | some _ => exact third

structure StackInside (top lo : Nat) : Prop where
  low : userCodeBase ≤ lo
  order : lo ≤ top
  high : top ≤ userStackTop
  aligned : lo % 16 = 0

theorem wrapped_sub {a b : Nat} (below : b ≤ a) (high : a ≤ userStackTop) : sub64 a b = a - b := by
  unfold sub64
  rw [Nat.sub_add_comm below, Nat.add_mod_right]
  exact Nat.mod_eq_of_lt (Nat.lt_of_le_of_lt ((Nat.sub_le a b).trans high) (by decide))

theorem next_page {a : Nat} (high : a ≤ userStackTop) : add64 a 0x1000 = a + 0x1000 :=
  Nat.mod_eq_of_lt (Nat.lt_of_le_of_lt (Nat.add_le_add_right high _) (by decide))

theorem setupUserArgs_building (own : ∀ v ∈ g.vmas, v.Private) (args : Args) {top lo : Nat} (inside : args.argc < 0 ∨ args.envc < 0 ∨ StackInside top lo)
    (building : Building device m0 rest base c t) : Building device m0 rest base c (setupUserArgs g top lo args t).1 := by
  unfold setupUserArgs
  split
  · exact building
  next counts =>
    obtain ⟨low, order, high, aligned⟩ : StackInside top lo := by
      rcases inside with negative | negative | inside
      · exact absurd (.inl negative) counts
      · exact absurd (.inr negative) counts
      · exact inside
    rw [wrapped_sub order high, next_page (order.trans high)]
    split
    · exact building
    have strings : strBase top args = top - args.blob.length := wrapped_sub (by omega) high
    have above : lo ≤ vecTop top args := by
      unfold vecTop
      omega
    have below : vecTop top args ≤ top - args.blob.length := by
      unfold vecTop
      omega
    rw [wrapped_sub above (by omega)]
    split
    · exact building
    next slots =>
      have words : vecBase top args = (vecTop top args - nslots args * 8) / 16 * 16 := by
        unfold vecBase
        rw [wrapped_sub (by omega) (by omega)]
      split
      · exact building
      rw [strings]
      have strung := uwrite_building own args.blob.length (top - args.blob.length) args.blob building (by omega) (by omega)
      generalize uwrite g args.blob.length t (top - args.blob.length) args.blob = r at strung
      obtain ⟨t1, ok⟩ := r
      cases ok with
      | false => exact strung
      | true =>
        unfold nslots at words slots
        exact writeVectors_building own args _ strung (by omega) (by omega)

end

def Fits (sup : Supply) (args : Args) : Prop :=
  args.argc < 0 ∨ args.envc < 0 ∨ userCodeBase + stackBytes (argBytes args) ≤ stackTop sup

theorem slide_aligned (tsc : Word) (span : Nat) : Confine.aslrSlide tsc span % 4096 = 0 := by
  unfold Confine.aslrSlide
  split
  · rfl
  · exact Nat.mul_mod_left _ _

theorem stackBytes_aligned (extra : Nat) : stackBytes extra % 4096 = 0 := by
  unfold stackBytes Confine.procStackPages
  generalize (extra + 0xFFF) % 2 ^ 64 / 4096 = pages
  omega

theorem stack_inside {sup : Supply} {extra : Nat} (room : userCodeBase + stackBytes extra ≤ stackTop sup) :
    StackInside (stackTop sup) (sub64 (stackTop sup) (stackBytes extra)) := by
  have aligned := slide_aligned (sup.tsc 0) (16 * 1024 * 1024)
  have bytes := stackBytes_aligned extra
  have high : stackTop sup ≤ userStackTop := Nat.sub_le _ _
  rw [wrapped_sub (Nat.le_trans (Nat.le_add_left _ _) room) high]
  refine ⟨by omega, Nat.sub_le _ _, high, ?_⟩
  unfold stackTop userStackTop at room ⊢
  unfold userCodeBase at room
  omega

section
variable {device : Nat → Prop} {rest base : Nat → Nat} {mem0 mem : Mem} {nv : Nat} {im : Image} {sup : Supply}

theorem buildManifest_taken (sup : Supply) (im : Image) {blocks : List Nat} (taken : Taken mem0.heap blocks mem.heap) (entry footprint : Nat) :
    (buildManifest mem sup im entry footprint).1.pmm = mem.pmm ∧ (buildManifest mem sup im entry footprint).1.cache = mem.cache ∧
      match (buildManifest mem sup im entry footprint).2 with
      | none => Taken mem0.heap blocks (buildManifest mem sup im entry footprint).1.heap
      | some mf => Taken mem0.heap ((mf.map (·.1)).toList ++ blocks) (buildManifest mem sup im entry footprint).1.heap := by
  unfold buildManifest
  rcases kmalloc_cases mem.heap sup.manifest with refused | ⟨b, fresh, given⟩
  · rw [refused]
    exact ⟨rfl, rfl, taken⟩
  · rw [given]
    have freed : kfree ⟨b :: mem.heap.live, mem.heap.bad⟩ b = mem.heap := kfree_top b _ _
    dsimp only [Mem.free]
    split
    · exact ⟨rfl, rfl, freed.symm ▸ taken⟩
    split
    · exact ⟨rfl, rfl, freed.symm ▸ taken⟩
    split
    · exact ⟨rfl, rfl, freed.symm ▸ taken⟩
    · exact ⟨rfl, rfl, taken.push fresh⟩

/-- How `proc_image_build` can end when the table of regions is at `nv`. -/
inductive BuildEnd (device : Nat → Prop) (rest base : Nat → Nat) (verify : Image → Bool) (sup : Supply) (mem0 : Mem) (nv : Nat) (im : Image)
    (extra : Nat) : Mem × Except Confine.Errno ProcImage → Prop
  | undone {mem : Mem} {e : Confine.Errno} (back : GivenBack mem0 (mem.free nv) im.base)
      (cause : verify im = false ∨ twoFrames mem0.pmm = false ∨ (kmalloc ⟨nv :: mem0.heap.live, mem0.heap.bad⟩ sup.space).2 ≠ none) :
      BuildEnd device rest base verify sup mem0 nv im extra (mem, .error e)
  | lost {mem : Mem} {e : Confine.Errno} (taken : ∃ f, isFree mem0.pmm f = true ∧ isFree mem.pmm f = false) (verified : verify im = true)
      (enough : twoFrames mem0.pmm = true) (refused : (kmalloc ⟨nv :: mem0.heap.live, mem0.heap.bad⟩ sup.space).2 = none) :
      BuildEnd device rest base verify sup mem0 nv im extra (mem, .error e)
  | built {mem : Mem} {new : ProcImage} (building : Building device mem0.pmm rest base mem0.cache ⟨mem.pmm, mem.cache, new.space.space⟩)
      (taken : Taken mem0.heap ((new.mf.map (·.1)).toList ++ [new.space.block, nv]) mem.heap) (own : ∀ v ∈ new.vmas, v.Private)
      (top : new.stackTop = stackTop sup) (lo : new.stackLo = sub64 (stackTop sup) (stackBytes extra))
      (granted : (kmalloc ⟨nv :: mem0.heap.live, mem0.heap.bad⟩ sup.space).2 ≠ none) :
      BuildEnd device rest base verify sup mem0 nv im extra (mem, .ok new)

theorem buildIn_ends {verify : Image → Bool} (mem : Mem) (sb : SpaceBlock) (start : Accounts device mem0.pmm rest base) (there : im.base ∈ mem0.heap.live)
    (building : Building device mem0.pmm rest base mem0.cache ⟨mem.pmm, mem.cache, sb.space⟩)
    (taken : Taken mem0.heap [sb.block, nv] mem.heap) (granted : (kmalloc ⟨nv :: mem0.heap.live, mem0.heap.bad⟩ sup.space).2 ≠ none) (extra : Nat) :
    BuildEnd device rest base verify sup mem0 nv im extra (buildIn sup mem im extra sb) := by
  have destroyed : Restored mem0.pmm (spaceDestroy mem.pmm sb.space) := building.borrow.destroyed start
  have cause : verify im = false ∨ twoFrames mem0.pmm = false ∨ (kmalloc ⟨nv :: mem0.heap.live, mem0.heap.bad⟩ sup.space).2 ≠ none :=
    .inr (.inr granted)
  unfold buildIn
  split
  · exact .undone (freed_with_space none sb there taken building.cache destroyed) cause
  next loaded done =>
    dsimp only
    split
    · exact .undone (freed_with_space none sb there taken building.cache destroyed) cause
    next vmas added =>
      have own := add_private (load_private done) (show VmaType.anon ≠ .phys from nofun) added
      obtain ⟨pmm, cache, heap⟩ := buildManifest_taken sup im taken loaded.entry
        ((loaded.footprint + stackBytes extra) % 2 ^ 64)
      generalize buildManifest mem sup im loaded.entry ((loaded.footprint + stackBytes extra) % 2 ^ 64) = r at pmm cache heap
      obtain ⟨mem', mf⟩ := r
      dsimp only at pmm cache heap
      cases mf with
      | none =>
        refine .undone (freed_with_space none sb there heap (cache.trans building.cache) ?_) cause
        rw [pmm]
        exact destroyed
      | some mf =>
        refine .built ?_ heap own rfl rfl granted
        rw [pmm, cache]
        exact building

theorem procImageBuild_ends (verify : Image → Bool) (sup : Supply) (start : Accounts device mem0.pmm rest base) (there : im.base ∈ mem0.heap.live)
    (fresh : nv ∉ mem0.heap.live) (extra : Nat) :
    BuildEnd device rest base verify sup mem0 nv im extra
      (procImageBuild verify sup { mem0 with heap := ⟨nv :: mem0.heap.live, mem0.heap.bad⟩ } im extra) := by
  have table : Taken mem0.heap [nv] ⟨nv :: mem0.heap.live, mem0.heap.bad⟩ :=
    ⟨rfl, fun b member => mem_singleton.mp member ▸ fresh⟩
  unfold procImageBuild
  cases verified : verify im with
  | false => exact .undone (freed_without_space there table rfl (Restored.refl _)) (.inl verified)
  | true =>
    simp only [Bool.not_true, Bool.false_eq_true, if_false]
    unfold spaceCreate
    rcases kmalloc_cases ⟨nv :: mem0.heap.live, mem0.heap.bad⟩ sup.space with refused | ⟨b, unused, given⟩
    · have outcome := spaceCreateUser_lent start false
      rw [refused]
      dsimp only [Option.isSome_none]
      generalize spaceCreateUser mem0.pmm false = r at outcome
      cases outcome with
      | refused borrow short => exact .undone (freed_without_space there table rfl (borrow.restored start)) (.inr (.inl short))
      | lost _ gone enough => exact .lost gone verified enough (by rw [refused])
      | made _ _ heap => exact nomatch heap
    · have outcome := spaceCreateUser_lent start true
      have granted : (kmalloc ⟨nv :: mem0.heap.live, mem0.heap.bad⟩ sup.space).2 ≠ none := by
        rw [given]
        exact nofun
      rw [given]
      dsimp only [Option.isSome_some]
      generalize spaceCreateUser mem0.pmm true = r at outcome
      cases outcome with
      | refused borrow short => exact .undone (freed_without_space there table rfl (borrow.restored start)) (.inr (.inl short))
      | lost heap => exact nomatch heap
      | made pml4 pdpt _ borrow =>
        have building : Building device mem0.pmm rest base mem0.cache ⟨_, mem0.cache, emptySpace pml4 pdpt⟩ :=
          ⟨borrow, fun page _ => show Word.has 0#64 flagDevice = false by decide, rfl⟩
        exact buildIn_ends ⟨_, mem0.cache, _⟩ ⟨_, b⟩ start there building (table.push unused) granted extra

end

/-- Nothing but the memory has changed, and of the memory only the image buffer is gone. -/
structure Clean (w w' : World) (im : Image) : Prop where
  others : w' = { w with mem := w'.mem }
  memory : GivenBack w.mem w'.mem im.base

/-- A failed exec changes nothing. -/
def Unwinds (a : Around) (sup : Supply) (w : World) (im : Image) (args : Args) : Prop :=
  ∀ e, (processExec a sup w im args).2 = .error e → Clean w (processExec a sup w im args).1 im

/-- The call comes to the point where both tables of the new space are allocated and the
heap refuses its block. -/
def SpaceRefused (a : Around) (sup : Supply) (w : World) (im : Image) : Prop :=
  4 ≤ im.size ∧ im.checkMagic = true ∧ (kmalloc w.mem.heap sup.regions).2 ≠ none ∧ a.verify im = true ∧ twoFrames w.mem.pmm = true ∧
    (kmalloc (kmalloc w.mem.heap sup.regions).1 sup.space).2 = none

section
variable {device : Nat → Prop} {rest base : Nat → Nat} {a : Around} {sup : Supply} {w : World} {im : Image} {args : Args}

section
variable (start : Accounts device w.mem.pmm rest base) (there : im.base ∈ w.mem.heap.live)
include start there

theorem execImage_clean {mem : Mem} {nv : Nat} {new : ProcImage}
    (building : Building device w.mem.pmm rest base w.mem.cache ⟨mem.pmm, mem.cache, new.space.space⟩)
    (taken : Taken w.mem.heap ((new.mf.map (·.1)).toList ++ [new.space.block, nv]) mem.heap) (own : ∀ v ∈ new.vmas, v.Private)
    (inside : args.argc < 0 ∨ args.envc < 0 ∨ StackInside new.stackTop new.stackLo) (e : Confine.Errno)
    (fails : (execImage a sup { w with mem := mem } nv im new args).2 = .error e) :
    Clean w (execImage a sup { w with mem := mem } nv im new args).1 im := by
  unfold execImage at fails ⊢
  split
  · exact ⟨rfl, freed_with_space _ _ there taken building.cache (building.borrow.destroyed start)⟩
  next ordinary =>
    rw [if_neg ordinary] at fails
    have after := setupUserArgs_building (g := ⟨⟨im.kmem, a.files⟩, new.vmas, a.kernel⟩) own args inside building
    dsimp only at fails ⊢
    generalize setupUserArgs _ _ _ _ _ = r at fails after
    obtain ⟨t, stack⟩ := r
    cases stack with
    | some stack => exact nomatch fails
    | none =>
      refine ⟨rfl, freed_with_space _ { new.space with space := t.space } there taken after.cache ?_⟩
      exact after.borrow.destroyed start

theorem unwinds_of_accounts :
    (SpaceRefused a sup w im → ¬Unwinds a sup w im args) ∧ (¬SpaceRefused a sup w im → Fits sup args → Unwinds a sup w im args) := by
  have image : kfree w.mem.heap im.base = ⟨w.mem.heap.live.erase im.base, w.mem.heap.bad⟩ := by
    unfold kfree
    rw [if_pos there]
  unfold Unwinds processExec
  by_cases script : im.size < 4 ∨ (!im.checkMagic) = true
  · rw [if_pos script]
    refine ⟨fun refused => ?_, fun _ _ e _ => ⟨rfl, Restored.refl _, rfl, image⟩⟩
    rcases script with short | other
    · exact absurd refused.1 (Nat.not_le_of_lt short)
    · rw [refused.2.1] at other
      exact nomatch other
  · rw [if_neg script]
    obtain ⟨size, magic⟩ := not_or.mp script
    rcases kmalloc_cases w.mem.heap sup.regions with nothing | ⟨nv, fresh, given⟩
    · rw [nothing]
      refine ⟨fun refused => ?_, fun _ _ e _ => ⟨rfl, Restored.refl _, rfl, image⟩⟩
      exact absurd (by rw [nothing]) refused.2.2.1
    · have outcome := procImageBuild_ends a.verify sup start there fresh (argBytes args)
      rw [given]
      dsimp only
      generalize procImageBuild a.verify sup _ im (argBytes args) = r at outcome
      cases outcome with
      | undone back cause =>
        refine ⟨fun refused => ?_, fun _ _ e _ => ⟨rfl, back⟩⟩
        obtain ⟨-, -, -, verified, enough, none⟩ := refused
        rw [given] at none
        rcases cause with no | no | no
        · exact nomatch no.symm.trans verified
        · exact nomatch no.symm.trans enough
        · exact absurd none no
      | lost gone verified enough none =>
        refine ⟨fun _ all => ?_, fun allowed => absurd ⟨by omega, by simpa using magic, ?_, verified, enough, ?_⟩ allowed⟩
        · obtain ⟨f, was, now⟩ := gone
          have same := (all _ rfl).memory.frames.free f
          exact nomatch was.symm.trans (same.symm.trans now)
        · rw [given]
          exact nofun
        · rw [given]
          exact none
      | built building taken own top lo granted =>
        refine ⟨fun refused => ?_, fun _ fits e fails => ?_⟩
        · obtain ⟨-, -, -, -, -, none⟩ := refused
          rw [given] at none
          exact absurd none granted
        · refine execImage_clean start there building taken own ?_ e fails
          rcases fits with negative | negative | room
          · exact .inl negative
          · exact .inr (.inl negative)
          · rw [top, lo]
            exact .inr (.inr (stack_inside room))

end

end

open Machine in
/-- For every reachable state of memory, every process, image and arguments and every answer of
the heap: a failed exec changes nothing unless the heap refuses the block of the new space,
and then it always loses frames. The stack of the arguments must end above the code base. -/
theorem failed_exec_unwinds {device : Nat → Prop} {boot : Pmm.State} (ready : Ready device boot) (ops : List Machine.Op)
    (legal : ∀ op ∈ ops, Legal device op) (a : Around) (sup : Supply) (w : Exec.World) (im : Image) (args : Args)
    (reached : w.mem.pmm = (run (booted boot) ops).pmm) (owned : im.base ∈ w.mem.heap.live) :
    (SpaceRefused a sup w im → ¬Unwinds a sup w im args) ∧ (¬SpaceRefused a sup w im → Fits sup args → Unwinds a sup w im args) := by
  have balanced := run_balanced (booted_balanced ready) ops legal
  have start := balanced.acc
  rw [← reached] at start
  exact unwinds_of_accounts start owned

def smallImage : Image where
  kmem := fun a => [(0, 0x7F), (1, 0x45), (2, 0x4C), (3, 0x46), (32, 64), (54, 56), (56, 1)].lookup a |>.getD 0
  base := 0
  size := 120

def bareWorld : World where
  mem := ⟨(Machine.booted Machine.smallBoot).pmm, Machine.emptyCache, ⟨[0], 0⟩⟩
  proc :=
    { conf :=
        { pid := 1, manifest := none, capNet := false, capEnforce := false, capMask := 0, noNewPrivs := false, memLimit := 0, driver := false,
          drvDevId := none, drvCaps := 0, cred := Confine.credInitRoot, vmas := [], entry := 0, stackTop := 0, brkStart := 0, brkCur := 0,
          mmapNext := 0, userMemBytes := 0 }
      space := none, image := none, imageSize := 0, manifest := none, signals := ⟨fun _ => 0, 0, 0, 0, false⟩ }
  slot := 0
  bindings := []
  audit := []
  files := Descriptors.boot
  place := 0
  tf := ⟨0, 0, 0, 0, 0, 0, 0, 0, 0, 0, 0, 0, 0, 0, 0, 0, 0, 0, 0, 0, 0, 0⟩

def around : Around := ⟨fun _ => true, Machine.noFiles.files, fun _ => 0, 0⟩

def shortArgs : Args := ⟨[65, 0], 2, 0⟩

/-- The second argument is missing when the first pages of the new stack are already there:
the call fails and gives them back. -/
theorem exec_with_missing_argument : (processExec around ⟨some 1, some 2, none, fun _ => 0⟩ bareWorld smallImage shortArgs).2.toOption = none ∧
    Unwinds around ⟨some 1, some 2, none, fun _ => 0⟩ bareWorld smallImage shortArgs := by
  refine ⟨by decide +kernel, ?_⟩
  refine (failed_exec_unwinds Machine.smallBoot_ready [] (fun _ member => nomatch member) around ⟨some 1, some 2, none, fun _ => 0⟩ bareWorld
    smallImage shortArgs rfl (by decide)).2 ?_ ?_
  · intro refused
    exact absurd refused.2.2.2.2.2 (by decide)
  · exact .inr (.inr (by decide +kernel))

/-- The heap gives the table of regions and refuses the space: two frames are gone. -/
theorem refused_space_loses_frames : ¬Unwinds around ⟨some 1, none, none, fun _ => 0⟩ bareWorld smallImage shortArgs := by
  intro unwinds
  have gone : isFree bareWorld.mem.pmm 256 = true ∧
      isFree (processExec around ⟨some 1, none, none, fun _ => 0⟩ bareWorld smallImage shortArgs).1.mem.pmm 256 = false ∧
      (processExec around ⟨some 1, none, none, fun _ => 0⟩ bareWorld smallImage shortArgs).2.toOption = none := by decide +kernel
  cases result : (processExec around ⟨some 1, none, none, fun _ => 0⟩ bareWorld smallImage shortArgs).2 with
  | ok done =>
    rw [result] at gone
    exact nomatch gone.2.2
  | error e =>
    have free := (unwinds e result).memory.frames.free 256
    rw [gone.1, gone.2.1] at free
    exact nomatch free

end SecOS.Exec
