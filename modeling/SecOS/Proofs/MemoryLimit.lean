import SecOS.UserMemory
import SecOS.Proofs.FailClosed
import SecOS.Proofs.RegionBytes

/-! The signed memory limit. Every call that adds memory compares the bytes of all regions with
the limit first; a segment that wraps around counts as a negative number of bytes. -/

namespace SecOS.UserMemory
open Library Vmm Elf Confine Vma Function List

/-- Regions in the user half, at most as many bytes as the limit. -/
structure Limited (p : Process) : Prop where
  sound : Sound p.vmas
  within : p.memLimit ≠ 0 → bytes p.vmas ≤ p.memLimit

section
variable {p q : Process} {set : List Vma}

theorem Limited.shrink (limited : Limited p) (less : Shrinks p.vmas set) (brk : Nat) :
    Limited { p with vmas := set, brkCur := brk } := by
  obtain ⟨sound, bound⟩ := less limited.sound
  exact ⟨sound, fun limit => Nat.le_trans bound (limited.within limit)⟩

theorem Limited.grow {n : Nat} (limited : Limited p) (grown : Grows p.vmas q.vmas n) (small : n ≤ userTop)
    (room : overLimit p n = false) (same : q.memLimit = p.memLimit) : Limited q := by
  refine ⟨grown.1, ?_⟩
  intro limit
  rw [same] at limit ⊢
  unfold overLimit at room
  rw [totalBytes_eq limited.sound] at room
  have low := bytes_lt limited.sound
  unfold userTop at small
  have fits : ¬ ((bytes p.vmas + n) % 2 ^ 64 > p.memLimit) := by simpa [limit] using room
  rw [Nat.mod_eq_of_lt (show bytes p.vmas + n < 2 ^ 64 by omega)] at fits
  rw [grown.2]
  omega

theorem lastPiece_spec {i : Nat} (found : lastPiece p = some i) :
    ∃ v, p.vmas[i]? = some v ∧ v.live = true ∧ v.stop = p.brkCur := by
  unfold lastPiece at found
  split at found
  · split at found
    · cases found
    next k covered =>
      split at found
      next ends =>
        cases found
        obtain ⟨inside, covers, _⟩ := List.findIdx?_eq_some_iff_getElem.mp covered
        rw [getElem?_eq_getElem inside] at ends
        simp only [Option.any_some, Bool.and_eq_true, beq_iff_eq] at ends
        unfold Vma.covers at covers
        simp only [Bool.and_eq_true] at covers
        exact ⟨p.vmas[i], getElem?_eq_getElem inside, covers.1.1, ends.1.1⟩
      · cases found
  · cases found

theorem growHeap_grows {newBrk : Nat} (sound : Sound p.vmas) (up : p.brkCur < newBrk) (high : newBrk ≤ userTop)
    (grown : growHeap p newBrk = some set) : Grows p.vmas set (newBrk - p.brkCur) := by
  unfold growHeap at grown
  split at grown
  next i found =>
    cases grown
    obtain ⟨v, held, live, ends⟩ := lastPiece_spec found
    have bounds := sound.held held live
    rw [modify_eq_set held]
    refine ⟨sound.replace (fun _ => ⟨?_, high⟩), ?_⟩
    · change v.start ≤ newBrk
      omega
    · have moved := bytes_set held { v with stop := newBrk }
      have before := size_of_live live
      have after : Vma.size { v with stop := newBrk } = newBrk - v.start := size_of_live (v := { v with stop := newBrk }) live
      omega
  · exact add_grows sound (Nat.le_of_lt up) high (by decide) grown

theorem trimHeap_shrinks (brkStart newBrk old : Nat) (set : List Vma) (i : Nat) : Shrinks set (trimHeap brkStart newBrk old set i) := by
  unfold trimHeap
  split
  · exact Shrinks.refl set
  next v held =>
    split
    · exact Shrinks.refl set
    split
    · exact Shrinks.refl set
    split
    · exact shrinks_remove held
    · exact shrinks_stop held (by omega) (by omega)

theorem brk_limited (limited : Limited p) (newBrk : Nat) : Limited (ksysBrk p newBrk).1 := by
  unfold ksysBrk
  split
  · exact limited
  dsimp only
  split
  · exact limited
  next low =>
    have high : pgup newBrk ≤ userTop := by
      unfold userMmapBase at low
      unfold userTop
      omega
    split
    · exact limited
    split
    next up =>
      split
      · exact limited
      next room =>
        split
        · exact limited
        next set grown =>
          refine limited.grow (growHeap_grows limited.sound up high grown) ?_ (by simpa using room) rfl
          omega
    · have less := Shrinks.foldl (trimHeap_shrinks p.brkStart (pgup newBrk) p.brkCur) (List.range vmaMax) p.vmas
      exact limited.shrink less _

theorem fbdevMmap_limited (limited : Limited p) (fb : Option Framebuffer) (len prot flags off : Nat) :
    Limited (fbdevMmap p fb len prot flags off).1 := by
  unfold fbdevMmap
  split
  · exact limited
  split
  · exact limited
  split
  · exact limited
  split
  · exact limited
  split
  · exact limited
  dsimp only
  split
  · exact limited
  split
  · exact limited
  next arena =>
    have high : p.mmapNext + pgup len ≤ userTop := by
      unfold userMmapEnd at arena
      unfold userTop
      omega
    split
    · exact limited
    next room =>
      split
      · exact limited
      next added =>
        have grown := addPhys_grows limited.sound high added
        rw [Nat.add_sub_cancel_left] at grown
        exact limited.grow grown (by omega) (by simpa using room) rfl

theorem mmapRegion_grows {fd : Option Fd} {base len prot flags : Nat} (sound : Sound p.vmas) (high : base + len ≤ userTop)
    (made : mmapRegion p fd base len prot flags = .ok set) : Grows p.vmas set len := by
  have order : base ≤ base + len := Nat.le_add_right _ _
  have exact_len : base + len - base = len := Nat.add_sub_cancel_left _ _
  unfold mmapRegion at made
  split at made
  · split at made
    · cases made
    next added =>
      cases made
      have grown := add_grows sound order high (by decide) added
      rwa [exact_len] at grown
  · split at made
    all_goals try cases made
    split at made
    · cases made
    next added =>
      cases made
      have grown := addFile_grows sound order high added
      rwa [exact_len] at grown

theorem mmap_limited (limited : Limited p) (fb : Option Framebuffer) (len prot flags : Nat) (fd : Option Fd) (off : Nat) :
    Limited (ksysMmap6 p fb len prot flags fd off).1 := by
  unfold ksysMmap6
  split
  · exact limited
  split
  next result device =>
    unfold mmapDevice at device
    split at device
    · cases device
    split at device
    · cases device
    split at device
    all_goals try cases device
    split at device
    · cases device
      exact limited
    split at device
    · cases device
      exact limited
    split at device
    · cases device
      exact fbdevMmap_limited limited fb len prot flags off
    · cases device
      exact limited
    · cases device
  · split
    · exact limited
    dsimp only
    split
    · exact limited
    split
    · exact limited
    split
    · exact limited
    next room =>
      split
      · exact limited
      next made =>
        have high : p.mmapNext + pgup len ≤ userTop := by
          unfold userMmapEnd at *
          unfold userTop
          omega
        exact limited.grow (mmapRegion_grows limited.sound high made) (by omega) (by simpa using room) rfl

theorem hole_shrinks {addr stop i : Nat} {v : Vma} (held : set[i]? = some v) (live : v.live = true) (low : v.start ≤ addr)
    (order : addr ≤ stop) (high : stop ≤ v.stop) :
    Shrinks set ((add (set.modify i fun v => { v with stop := addr }) stop v.stop v.flags .anon 0 0 0 0).getD
      (set.modify i fun v => { v with stop := addr })) := by
  have trimmed := shrinks_stop held low (Nat.le_trans order high)
  cases added : add (set.modify i fun v => { v with stop := addr }) stop v.stop v.flags .anon 0 0 0 0 with
  | none => exact trimmed
  | some tail =>
    intro sound
    have bounds := sound.held held live
    obtain ⟨kept, total⟩ := add_grows (trimmed sound).1 high bounds.2 (by decide) added
    refine ⟨kept, ?_⟩
    rw [modify_eq_set held] at total
    have moved := bytes_set held { v with stop := addr }
    have before := size_of_live live
    have after : Vma.size { v with stop := addr } = addr - v.start := size_of_live (v := { v with stop := addr }) live
    change bytes tail ≤ bytes set
    omega

theorem unmapRegion_shrinks {addr stop : Nat} (order : addr ≤ stop) (set : List Vma) (i : Nat) :
    Shrinks set (unmapRegion addr stop set i) := by
  unfold unmapRegion
  split
  · exact Shrinks.refl set
  next v held =>
    split
    · exact Shrinks.refl set
    next alive =>
      have live : v.live = true := by simpa using alive
      split
      · exact Shrinks.refl set
      split
      · exact shrinks_remove held
      split
      · exact shrinks_start held (by omega) (by omega)
      split
      · exact shrinks_stop held (by omega) (by omega)
      split
      · obtain ⟨w, slot, start, ends⟩ := split_slot stop held live
        exact (split_shrinks set i stop).trans (shrinks_stop slot (by omega) (by omega))
      dsimp only
      split
      · exact hole_shrinks held live (by omega) order (by omega)
      · exact shrinks_stop held (by omega) (by omega)

theorem munmap_limited (limited : Limited p) (addr len : Nat) : Limited (ksysMunmap p addr len).1 := by
  unfold ksysMunmap
  dsimp only
  split
  · exact limited
  · have less := Shrinks.foldl (unmapRegion_shrinks (Nat.le_add_right addr (m18UserSpan addr len))) (List.range vmaMax) p.vmas
    exact limited.shrink less p.brkCur

theorem cutRegions_shrinks (addr : Nat) (set : List Vma) : Shrinks set (cutRegions addr set).1 := by
  unfold cutRegions
  generalize List.range vmaMax = indices
  suffices every : ∀ st : List Vma × Bool, Shrinks st.1 (indices.foldl (cutRegion addr) st).1 from every (set, true)
  induction indices with
  | nil => exact fun st => Shrinks.refl st.1
  | cons i indices ih =>
    intro st
    refine Shrinks.trans ?_ (ih (cutRegion addr st i))
    unfold cutRegion
    split
    · exact Shrinks.refl st.1
    split
    · exact Shrinks.refl st.1
    split
    · exact split_shrinks st.1 i addr
    · exact Shrinks.refl st.1

theorem protect_shrinks (addr stop : Nat) (flags : Flags) (set : List Vma) :
    Shrinks set (set.map (protectRegion addr stop flags)) := by
  have same : ∀ v, (protectRegion addr stop flags v).start = v.start ∧ (protectRegion addr stop flags v).stop = v.stop ∧
      (protectRegion addr stop flags v).live = v.live := by
    intro v
    unfold protectRegion
    split <;> exact ⟨rfl, rfl, rfl⟩
  intro sound
  refine ⟨⟨?_, ?_⟩, Nat.le_of_eq ?_⟩
  · rw [length_map]
    exact sound.short
  · intro w member
    obtain ⟨v, old, rfl⟩ := List.mem_map.mp member
    obtain ⟨start, ends, live⟩ := same v
    unfold Proper
    rw [start, ends, live]
    exact sound.proper v old
  · unfold bytes
    rw [map_map]
    congr 1
    apply map_congr_left
    intro v _
    obtain ⟨start, ends, live⟩ := same v
    simp only [Function.comp_apply, Vma.size, start, ends, live]

theorem mprotect_limited (limited : Limited p) (addr len prot : Nat) : Limited (ksysMprotect p addr len prot).1 := by
  have first := cutRegions_shrinks addr p.vmas
  have second := fun set => cutRegions_shrinks (addr + m18UserSpan addr len) set
  unfold ksysMprotect
  split
  · exact limited
  dsimp only
  split
  · exact limited
  split
  · exact limited
  split
  · exact limited
  split
  · exact limited.shrink first p.brkCur
  split
  · exact limited.shrink (first.trans (second _)) p.brkCur
  · exact limited.shrink ((first.trans (second _)).trans (protect_shrinks _ _ _ _)) p.brkCur

theorem perform_limited (limited : Limited p) (call : Call) : Limited (perform p call) := by
  cases call with
  | brk newBrk => exact brk_limited limited newBrk
  | mmap fb len prot flags fd off => exact mmap_limited limited fb len prot flags fd off
  | munmap addr len => exact munmap_limited limited addr len
  | mprotect addr len prot => exact mprotect_limited limited addr len prot

def SegmentsInside (im : Image) : Prop :=
  ∀ i < im.phnum, (im.readPhdr i).type = ptLoad → (im.readPhdr i).vaddr + max (im.readPhdr i).memsz (im.readPhdr i).filesz ≤ userTop

def Counted (st : List Vma × Nat) : Prop := Sound st.1 ∧ st.2 = bytes st.1

variable {im : Image} {st st' : List Vma × Nat}

/-- A program header that is accepted is skipped or adds one region. -/
theorem loadSegment_cases {ph : Phdr} (done : loadSegment im ph st = .ok st') :
    st' = st ∨ ph.type = ptLoad ∧ ∃ set start stop pad flags,
      start = ph.vaddr / 4096 * 4096 ∧ stop = (ph.vaddr + max ph.memsz ph.filesz + 0xFFF) % 2 ^ 64 / 4096 * 4096 ∧
      Vma.add st.1 start stop flags .file im.base ph.offset pad ph.filesz = some set ∧
      st' = (set, (st.2 + (stop + 2 ^ 64 - start)) % 2 ^ 64) := by
  unfold loadSegment at done
  split at done
  · cases done
    exact .inl rfl
  next load =>
    split at done
    · cases done
      exact .inl rfl
    split at done
    · cases done
    split at done
    · cases done
    split at done
    · cases done
    split at done
    · cases done
    split at done
    · cases done
    dsimp only at done
    split at done
    · cases done
    next middle added =>
      cases done
      have size : (if ph.memsz < ph.filesz then ph.filesz else ph.memsz) = max ph.memsz ph.filesz := by
        split <;> omega
      rw [size] at added ⊢
      exact .inr ⟨by simpa using load, middle, _, _, _, _, rfl, rfl, added, rfl⟩

theorem loadSegments_keeps {P : List Vma × Nat → Prop} (n : Nat) {i : Nat}
    (kept : ∀ j, j < i + n → ∀ st st', P st → loadSegment im (im.readPhdr j) st = .ok st' → P st') (start : P st)
    (done : loadSegments im n i st = .ok st') : P st' := by
  induction n generalizing i st with
  | zero =>
    cases done
    exact start
  | succ n ih =>
    unfold loadSegments at done
    split at done
    · cases done
    split at done
    · cases done
    next middle loaded =>
      refine ih (fun j inside => kept j (by omega)) (kept i (by omega) st middle start loaded) done

theorem load_cases {loaded : Loaded} (done : elfLoadImageLazy im [] = .ok loaded) :
    loadSegments im im.phnum 0 ([], 0) = .ok (loaded.vmas, loaded.footprint) := by
  unfold elfLoadImageLazy at done
  split at done
  · cases done
  split at done
  · cases done
  split at done
  · cases done
  split at done
  · cases done
  split at done
  · cases done
  next read =>
    cases done
    exact read

theorem loadSegment_counted {ph : Phdr}
    (inside : ph.type = ptLoad → ph.vaddr + max ph.memsz ph.filesz ≤ userTop) (counted : Counted st)
    (done : loadSegment im ph st = .ok st') : Counted st' := by
  rcases loadSegment_cases done with rfl | ⟨load, set, start, stop, pad, flags, rfl, rfl, added, rfl⟩
  · exact counted
  · have reach := inside load
    unfold userTop at reach
    have ends : (ph.vaddr + max ph.memsz ph.filesz + 0xFFF) % 2 ^ 64 = ph.vaddr + max ph.memsz ph.filesz + 0xFFF :=
      Nat.mod_eq_of_lt (by omega)
    rw [ends] at added ⊢
    have grown := add_grows counted.1 (by omega) (by unfold userTop; omega) (by decide) added
    have before := counted.2
    have low := bytes_lt grown.1
    have total := grown.2
    refine ⟨grown.1, ?_⟩
    dsimp only
    omega

theorem load_counted {loaded : Loaded} (inside : SegmentsInside im) (done : elfLoadImageLazy im [] = .ok loaded) :
    Counted (loaded.vmas, loaded.footprint) := by
  refine loadSegments_keeps im.phnum (fun j low st st' => ?_) (show Counted ([], 0) from ⟨sound_nil, rfl⟩) (load_cases done)
  exact loadSegment_counted (inside j (by omega))

theorem aslrSlide_lt (tsc : Word) {span : Nat} (positive : 0x2000 ≤ span) : aslrSlide tsc span < span := by
  unfold aslrSlide
  rw [if_neg (by omega)]
  dsimp only
  generalize BitVec.toNat _ = x
  have low := Nat.mod_lt x (show 0 < span / 4096 by omega)
  omega

structure Fits (new : ProcImage) : Prop where
  sound : Sound new.vmas
  within : ∀ mf, new.mf = some mf → mf.maxMem ≠ 0 → bytes new.vmas ≤ mf.maxMem

theorem buildManifest_fits {sup : Supply} {entry footprint : Nat} {mf : Manifest}
    (done : buildManifest sup im entry footprint = .ok (some mf)) (limit : mf.maxMem ≠ 0) : footprint ≤ mf.maxMem := by
  unfold buildManifest at done
  split at done
  · split at done
    · cases done
    split at done
    · cases done
    split at done
    · cases done
    · cases done
      omega
  · cases done

theorem build_fits {verify : Image → Bool} {sup : Supply} {owned : Bool} {extra : Nat} {new : ProcImage}
    (inside : verify im = true → SegmentsInside im) (small : extra ≤ 2 ^ 20)
    (built : procImageBuild verify sup im owned extra = .ok new) : Fits new := by
  unfold procImageBuild at built
  split at built
  · cases built
  next signed =>
    split at built
    · cases built
    split at built
    · cases built
    split at built
    · cases built
    next loaded read =>
      obtain ⟨sound, counted⟩ := load_counted (inside (by simpa using signed)) read
      dsimp only at built sound counted
      have slide := aslrSlide_lt (sup.tsc 0) (show 0x2000 ≤ 16 * 1024 * 1024 by decide)
      generalize aslrSlide (sup.tsc 0) (16 * 1024 * 1024) = shift at built slide
      split at built
      · cases built
      next set added =>
        split at built
        · cases built
        next mf kept =>
          cases built
          unfold userStackTop at added
          unfold procStackPages at added kept
          have grown := add_grows sound (by omega) (by unfold userTop; omega) (by decide) added
          have low := bytes_lt grown.1
          have total := grown.2
          refine ⟨grown.1, ?_⟩
          rintro mf rfl limit
          have fits := buildManifest_fits kept limit
          dsimp only at total ⊢
          omega

theorem Limited.congr (limited : Limited p) (regions : q.vmas = p.vmas) (limit : q.memLimit = p.memLimit) : Limited q := by
  refine ⟨?_, ?_⟩
  · rw [regions]
    exact limited.sound
  · rw [regions, limit]
    exact limited.within

theorem transition_vmas (p : Process) (b : ExecBound) (what : String) : (capExecTransition p b what).1.vmas = p.vmas := by
  unfold capExecTransition
  split <;> rfl

theorem Fits.limited {new : ProcImage} (fits : Fits new) (p : Process) (b : ExecBound) (what : String) (regions : p.vmas = new.vmas) :
    Limited (capExecTransition (procApplyCaps p new.mf) b what).1 := by
  apply Limited.congr (p := procApplyCaps p new.mf) ?_ (transition_vmas _ _ _) (transition_memLimit _ _ _)
  cases manifest : new.mf with
  | none =>
    refine ⟨?_, fun limit => absurd rfl limit⟩
    change Sound p.vmas
    rw [regions]
    exact fits.sound
  | some mf =>
    refine ⟨?_, ?_⟩
    · change Sound p.vmas
      rw [regions]
      exact fits.sound
    · intro limit
      change bytes p.vmas ≤ mf.maxMem
      rw [regions]
      exact fits.within mf manifest limit

end

section
variable {verify : Image → Bool} {s s' : System} {sup : Supply} {i : Nat} {p : Process}

def AllLimited (s : System) : Prop := ∀ i p, s.table i = some p → Limited p

theorem AllLimited.update (all : AllLimited s) (limited : Limited p) (table : s'.table = update s.table i (some p)) :
    AllLimited s' := by
  intro j q held
  rw [table] at held
  by_cases here : j = i
  · rw [here, update_self] at held
    cases held
    exact limited
  · rw [update_of_ne here] at held
    exact all j q held

theorem claimDriver_frame (bindings : Bindings) (i : Nat) (p : Process) (mf : Option Manifest) :
    (claimDriver bindings i p mf).2.vmas = p.vmas ∧ (claimDriver bindings i p mf).2.memLimit = p.memLimit := by
  cases mf with
  | none => exact ⟨rfl, rfl⟩
  | some mf =>
    simp only [claimDriver]
    split
    · exact ⟨rfl, rfl⟩
    split
    · exact ⟨rfl, rfl⟩
    · split <;> exact ⟨rfl, rfl⟩

theorem create_limited {im : Image} {result : Option Nat} (inside : verify im = true → SegmentsInside im) (all : AllLimited s)
    (made : processCreateFromElfArgs verify s im sup = (s', result)) : AllLimited s' := by
  unfold processCreateFromElfArgs at made
  split at made
  · cases made
    exact all
  split at made
  · cases made
    exact all
  next new built =>
    simp only [allocPid] at made
    split at made
    · cases made
      exact all
    next j _ =>
      split at made
      · cases made
        exact all
      cases made
      obtain ⟨regions, limit⟩ := claimDriver_frame s.bindings j (newProcess sup s.nextPid new).1 new.mf
      have fresh : Limited (newProcess sup s.nextPid new).1 := (build_fits inside (Nat.zero_le _) built).limited _ _ _ rfl
      exact all.update (fresh.congr regions limit) rfl

theorem spawnBound_frame (current : Option Process) (p : Process) :
    (spawnBound current p).1.vmas = p.vmas ∧ (spawnBound current p).1.memLimit = p.memLimit := by
  simp only [spawnBound]
  split <;> exact ⟨transition_vmas _ _ _, transition_memLimit _ _ _⟩

theorem spawnCred_frame (current : Option Process) (p : Process) :
    (spawnCred current p).vmas = p.vmas ∧ (spawnCred current p).memLimit = p.memLimit := by
  unfold spawnCred
  split
  · split <;> exact ⟨rfl, rfl⟩
  · exact ⟨rfl, rfl⟩

theorem spawn_limited {caller : Option Nat} {file : File} (inside : verify file.image = true → SegmentsInside file.image)
    (all : AllLimited s) : AllLimited (ksysSpawnArgv verify s caller file sup).1 := by
  unfold ksysSpawnArgv
  dsimp only
  cases creation : processCreateFromElfArgs verify s file.image sup with
  | mk middle result =>
    have kept := create_limited inside all creation
    cases result with
    | none => exact kept
    | some j =>
      cases held : middle.table j with
      | none =>
        simp only [held]
        exact kept
      | some fresh =>
        simp only [held]
        have bound := spawnBound_frame (caller.bind s.table) fresh
        have user := spawnCred_frame (caller.bind s.table) (spawnBound (caller.bind s.table) fresh).1
        have limited : Limited (spawnCred (caller.bind s.table) (spawnBound (caller.bind s.table) fresh).1) :=
          (kept j fresh held).congr (user.1.trans bound.1) (user.2.trans bound.2)
        exact kept.update (limited.congr (q := credExecSetid _ _ _ _ _) rfl rfl) rfl

theorem execCopyStrv_fits (strings : List (Option (List UInt8))) {st st' : List UInt8 × Nat}
    (fits : st.1.length ≤ execArgMax ∧ st.2 ≤ execMaxStrs) (copied : execCopyStrv strings st = some st') :
    st'.1.length ≤ execArgMax ∧ st'.2 ≤ execMaxStrs := by
  induction strings generalizing st with
  | nil =>
    cases copied
    exact fits
  | cons string rest ih =>
    obtain ⟨blob, count⟩ := st
    cases string with
    | none => cases copied
    | some str =>
      unfold execCopyStrv at copied
      split at copied
      · cases copied
      split at copied
      · cases copied
      refine ih ⟨?_, ?_⟩ copied
      · simp only [length_append, length_singleton]
        omega
      · change count + 1 ≤ execMaxStrs
        omega

theorem execArgs_fits {argv envp : List (Option (List UInt8))} {args : Args} (copied : execArgs argv envp = some args) :
    args.blob.length + (args.argc + args.envc + 3) * 8 + 32 ≤ 2 ^ 20 := by
  unfold execArgs at copied
  split at copied
  · cases copied
  next blob argc first =>
    obtain ⟨⟨whole, envc⟩, second, rfl⟩ := Option.map_eq_some_iff.mp copied
    have one := execCopyStrv_fits argv ⟨Nat.zero_le _, Nat.zero_le _⟩ first
    have two : whole.length ≤ execArgMax ∧ envc ≤ execMaxStrs := by
      apply execCopyStrv_fits envp ?_ second
      exact ⟨one.1, Nat.zero_le _⟩
    unfold execArgMax execMaxStrs at one two
    dsimp only at one two ⊢
    omega

theorem execve_limited {file : File} {args : Args} (inside : verify file.image = true → SegmentsInside file.image)
    (short : args.blob.length + (args.argc + args.envc + 3) * 8 + 32 ≤ 2 ^ 20) (all : AllLimited s) :
    AllLimited (ksysExecve verify s i file sup args) := by
  have outcome : ksysExecve verify s i file sup args = s ∨ _ := execve_cases args
  obtain same | ⟨p, q, audit, held, done, table, _⟩ := outcome
  · rw [same]
    exact all
  · obtain ⟨new, base, built, regions, after⟩ := exec_inv done
    have fits : Fits new := build_fits inside short built
    have limited : Limited q := by
      rw [after]
      exact (fits.limited base (capExecBound (some p)) "execve" (by rw [regions])).congr rfl rfl
    refine all.update ?_ table
    exact limited.congr rfl rfl

/-- The images that an event starts, if they are signed, lie in the user half. -/
def ImagesInside (verify : Image → Bool) : Event → Prop
  | .spawn _ file _ => verify file.image = true → SegmentsInside file.image
  | .execve _ file _ _ _ => verify file.image = true → SegmentsInside file.image
  | _ => True

theorem step_limited {e : Event} (inside : ImagesInside verify e) (all : AllLimited s) : AllLimited (step verify s e) := by
  cases e with
  | call i call =>
    simp only [step]
    split
    · exact all
    next p held => exact all.update (perform_limited (all i p held) call) rfl
  | fork i sup =>
    simp only [step]
    cases made : processFork s i sup with
    | mk after child =>
      obtain ⟨_, quiet⟩ | ⟨j, parent, p, _, held, created, _, copy⟩ := fork_cases made
      · intro k q there
        rw [quiet.1] at there
        exact all k q there
      · refine all.update ((all i parent held).congr ?_ ?_) created.table
        · rw [copy]
        · rw [copy]
  | spawn caller file sup => exact spawn_limited inside all
  | execve i file sup argv envp =>
    simp only [step]
    split
    · exact all
    next args copied => exact execve_limited inside (execArgs_fits copied) all
  | destroy i =>
    intro j q there
    by_cases here : j = i
    · subst here
      have gone : (step verify s (.destroy j)).table j = none := update_self ..
      rw [gone] at there
      cases there
    · have same : (step verify s (.destroy i)).table j = s.table j := update_of_ne here ..
      rw [same] at there
      exact all j q there

theorem run_limited {events : List Event} (inside : ∀ e ∈ events, ImagesInside verify e) (all : AllLimited s) :
    AllLimited (run verify s events) := by
  induction events generalizing s with
  | nil => exact all
  | cons e events ih =>
    apply ih
    · exact fun later member => inside later (mem_cons_of_mem _ member)
    · exact step_limited (inside e mem_cons_self) all

/-- A process with a limit stays below it, in every run of images that lie in the user half. -/
theorem limit_kept_inside (verify : Image → Bool) (events : List Event) (inside : ∀ e ∈ events, ImagesInside verify e)
    (i : Nat) (p : Process) (held : (run verify boot events).table i = some p) (limit : p.memLimit ≠ 0) :
    totalBytes p.vmas ≤ p.memLimit := by
  have limited := run_limited inside (s := boot) (fun _ _ absent => nomatch absent) i p held
  rw [totalBytes_eq limited.sound]
  exact limited.within limit

/-! The program of the earlier runs, which takes some heap and a mapping. -/

def sampleCalls : List Event :=
  [.spawn none sampleFile Supply.full, .call 0 (.mmap none 0x2000 3 0x22 none 0), .call 0 (.brk 0x280003000)]

theorem sample_limit_kept : ∃ p, (run (fun _ => true) boot sampleCalls).table 0 = some p ∧ p.memLimit = 0x10000 ∧
    totalBytes p.vmas = 0xE000 ∧ totalBytes p.vmas ≤ p.memLimit := by
  obtain ⟨p, held, limit, total⟩ : ∃ p, (run (fun _ => true) boot sampleCalls).table 0 = some p ∧ p.memLimit = 0x10000 ∧
      totalBytes p.vmas = 0xE000 := exists_of_any (by decide +kernel)
  refine ⟨p, held, limit, total, ?_⟩
  have segments : SegmentsInside sampleImage := by
    unfold SegmentsInside
    decide +kernel
  refine limit_kept_inside (fun _ => true) sampleCalls ?_ 0 p held (by rw [limit]; decide)
  intro e member
  simp only [sampleCalls, mem_cons, not_mem_nil, or_false] at member
  obtain rfl | rfl | rfl := member
  · exact fun _ => segments
  · trivial
  · trivial

/-! A signed image of three segments: a page of code, one gigabyte of data, and a segment of
2 ^ 64 - 2 ^ 30 bytes, which wraps around and ends one gigabyte below its start. -/

def wrappedBytes : Bytes :=
  ((((((Bytes.zeros.wr 4 0 0x464C457F).wr 8 24 0x100000000).wr 8 32 64).wr 2 54 56).wr 2 56 4).wr 4 64 1)
    |>.wr 4 68 5 |>.wr 8 80 0x100000000 |>.wr 8 96 16 |>.wr 8 104 16
    |>.wr 4 120 1 |>.wr 4 124 6 |>.wr 8 136 0x300000000 |>.wr 8 160 0x40000000
    |>.wr 4 176 1 |>.wr 4 180 6 |>.wr 8 192 0x240000000 |>.wr 8 216 0xFFFFFFFFC0000000
    |>.wr 4 232 4 |>.wr 8 240 288 |>.wr 8 264 44
    |>.wr 4 288 6 |>.wr 4 292 24 |>.wr 4 296 0x51534543 |>.wr 5 300 0x534F434553
    |>.wr 4 308 1 |>.wr 4 312 0x60 |>.wr 8 316 0x10000

def wrappedFile : File := ⟨⟨fun address => wrappedBytes (address - 0x1000000), 0x1000000, 332⟩, 0o755#32, 0, 0, true⟩

/-- The three sizes add up to one page, so the image is within its limit of 16 pages. Once the
process has unmapped the segment that wraps, it has a gigabyte. -/
theorem wrapped_segment_unmapped : ∃ p,
    (run (fun _ => true) boot [.spawn none wrappedFile Supply.full, .call 0 (.munmap 0x1F0000000 0x60000000)]).table 0 = some p ∧
      p.memLimit = 0x10000 ∧ totalBytes p.vmas = 0x40009000 := exists_of_any (by decide +kernel)

end
end SecOS.UserMemory
