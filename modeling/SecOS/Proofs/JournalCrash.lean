import SecOS.Proofs.JournalAtomic

/-! The two guarantees of the journal: which volume a mount makes of an interrupted commit,
and that an interrupted recovery can be run again. -/

namespace SecOS.Ext2
open Library Function List Bytes Option

section
variable {vol : Volume} {j : Journal} {J : Nat → Nat} {disk d : Disk} {txn : List (Nat × Bytes)} {now k m rounds : Nat}

/-- Outside the journal one volume is the other, with the flag cleared. -/
def SameVolume (vol : Volume) (j : Journal) (J : Nat → Nat) (d x : Disk) : Prop := ∀ b, Outside j J b → d b = settle vol b (x b)

theorem Idle.mount {x : Disk} (c : Committable vol j J disk txn) (idle : Idle vol j J disk txn d) (rounds : Nat)
    (same : ∀ b, Outside j J b → d b = x b) : ∃ dev, jbd2Recover vol rounds d = .ok dev ∧ SameVolume vol j J dev.disk x := by
  refine ⟨_, idle.recover c rounds, fun b outside => ?_⟩
  rw [clearRecover_disk, settled, ← same b outside]
  rfl

/-- The blocks in place after recovery: all of them, or, when the number wraps, as many as before. -/
def restored (j : Journal) (txn : List (Nat × Bytes)) (m : Nat) : List (Nat × Bytes) := if j.seq + 1 < 2 ^ 32 then txn else txn.take m

theorem mount_checkpointed (c : Committable vol j J disk txn) (now m rounds : Nat) :
    ∃ dev, jbd2Recover vol (rounds + 3) (checkpointed vol j J now disk txn m) = .ok dev ∧
      SameVolume vol j J dev.disk (applyWrites (restored j txn m) disk) := by
  refine ⟨_, (checkpointed_published c).recover c rounds, fun b outside => ?_⟩
  rw [clearRecover_disk, settled, Device.writeAll_eq]
  change settle vol b (update (applyWrites (written _ txn) (checkpointed vol j J now disk txn m)) (J 0) _ b) = _
  rw [update_of_ne (outside 0 c.positive).symm]
  congr 1
  unfold restored written
  change applyWrites (if j.seq + 1 < 2 ^ 32 then txn else []) _ b = _
  split
  · refine applyWrites_congr fun absent => ?_
    rw [checkpointed_outside c outside]
    exact applyWrites_other fun w member => absent w (mem_of_mem_take member)
  · exact checkpointed_outside c outside

theorem mount_crashed (c : Committable vol j J disk txn) (k rounds : Nat) :
    ∃ dev, jbd2Recover vol (rounds + 3) (crashed vol j now disk txn k) = .ok dev ∧
      (SameVolume vol j J dev.disk disk ∨ SameVolume vol j J dev.disk (applyWrites txn disk) ∨
        ∃ m, SameVolume vol j J dev.disk (applyWrites (restored j txn m) disk)) := by
  rcases crashed_cases c now k with ⟨idle, old | new⟩ | ⟨m, cut⟩
  · obtain ⟨dev, mounted, same⟩ := idle.mount c (rounds + 3) old
    exact ⟨dev, mounted, .inl same⟩
  · obtain ⟨dev, mounted, same⟩ := idle.mount c (rounds + 3) new
    exact ⟨dev, mounted, .inr (.inl same)⟩
  · rw [cut]
    obtain ⟨dev, mounted, some⟩ := mount_checkpointed c now m rounds
    exact ⟨dev, mounted, .inr (.inr ⟨m, some⟩)⟩

def Unchanged (vol : Volume) (disk : Disk) (w : Nat × Bytes) : Prop := settle vol w.1 w.2 = settle vol w.1 (disk w.1)

def OneChange (vol : Volume) (disk : Disk) (txn : List (Nat × Bytes)) : Prop :=
  ∀ v ∈ txn, ∀ w ∈ txn, v.1 ≠ w.1 → Unchanged vol disk v ∨ Unchanged vol disk w

theorem applyWrites_cases {ws : List (Nat × Bytes)} (unique : (ws.map Prod.fst).Nodup) (disk : Disk) (b : Nat) :
    (∀ w ∈ ws, w.1 ≠ b) ∧ applyWrites ws disk b = disk b ∨ ∃ x, (b, x) ∈ ws ∧ applyWrites ws disk b = x := by
  by_cases absent : ∀ w ∈ ws, w.1 ≠ b
  · exact .inl ⟨absent, applyWrites_other absent⟩
  · simp only [not_forall, not_not] at absent
    obtain ⟨⟨_, x⟩, member, rfl⟩ := absent
    exact .inr ⟨x, member, applyWrites_mem unique member⟩

theorem part_same (c : Committable vol j J disk txn) (one : OneChange vol disk txn) (m : Nat) :
    (∀ b, settle vol b (applyWrites (txn.take m) disk b) = settle vol b (disk b)) ∨
      ∀ b, settle vol b (applyWrites (txn.take m) disk b) = settle vol b (applyWrites txn disk b) := by
  have unique : ((txn.take m).map Prod.fst).Nodup := by
    rw [map_take]
    exact c.unique.sublist (take_sublist ..)
  by_cases none : ∀ w ∈ txn.take m, Unchanged vol disk w
  · refine .inl fun b => ?_
    rcases applyWrites_cases unique disk b with ⟨_, same⟩ | ⟨x, member, same⟩
    · rw [same]
    · rw [same]
      exact none _ member
  · simp only [not_forall] at none
    obtain ⟨v, listed, changed⟩ := none
    have mine : v ∈ txn := mem_of_mem_take listed
    refine .inr fun b => ?_
    rcases applyWrites_cases c.unique disk b with ⟨absent, same⟩ | ⟨x, member, same⟩
    · rw [same, applyWrites_other fun w part => absent w (mem_of_mem_take part)]
    · rw [same]
      by_cases here : v.1 = b
      · subst here
        have both : applyWrites txn disk v.1 = v.2 := applyWrites_mem c.unique mine
        rw [applyWrites_mem unique listed, ← same, both]
      · have kept : Unchanged vol disk (b, x) := (one v mine (b, x) member here).resolve_left changed
        rcases applyWrites_cases unique disk b with ⟨_, before⟩ | ⟨y, part, after⟩
        · rw [before]
          exact kept.symm
        · rw [after, ← applyWrites_mem (d := disk) c.unique (mem_of_mem_take part), same]

theorem settled_again (vol : Volume) (d : Disk) : settled vol (settled vol d) = settled vol d := funext fun _ => settle_settle ..

theorem settled_journal (c : Committable vol j J disk txn) : settled vol d (J 0) = d (J 0) := settle_other _ (c.super 0 c.positive)

theorem update_super (vol : Volume) (d : Disk) : update d vol.sbBlock (settle vol vol.sbBlock (d vol.sbBlock)) = settled vol d := by
  funext b
  unfold settled
  by_cases here : b = vol.sbBlock
  · subst here
    rw [update_self]
  · rw [update_of_ne here, settle_other _ here]

theorem Idle.settled (c : Committable vol j J disk txn) (idle : Idle vol j J disk txn d) : Idle vol j J disk txn (settled vol d) := by
  refine ⟨idle.held.settled, ?_, ?_⟩
  · rw [settled_journal c]
    exact idle.magic
  · rw [settled_journal c]
    exact idle.idle

theorem clearRecover_rest (vol : Volume) (dev : Device Bytes) : ∃ rest, (clearRecover vol dev).issued = dev.issued ++ rest ∧
    ∀ n, applyWrites (rest.take n) dev.disk = dev.disk ∨ applyWrites (rest.take n) dev.disk = settled vol dev.disk := by
  rcases clearRecover_cases vol dev with cleared | ⟨same, _⟩
  · rw [cleared]
    refine ⟨_, rfl, fun n => ?_⟩
    cases n with
    | zero => exact .inl rfl
    | succ n =>
      rw [take_of_length_le (Nat.succ_le_succ (Nat.zero_le n))]
      exact .inr (update_super vol _)
  · rw [same]
    exact ⟨[], (append_nil _).symm, fun n => .inl (by rw [take_nil]; rfl)⟩

theorem Idle.again {dev : Device Bytes} (c : Committable vol j J disk txn) (idle : Idle vol j J disk txn d) (n : Nat)
    (mounted : jbd2Recover vol k d = .ok dev) :
    ∃ dev', jbd2Recover vol rounds (applyWrites (dev.issued.take n) d) = .ok dev' ∧ dev'.disk = dev.disk := by
  rw [idle.recover c k] at mounted
  obtain rfl := Except.ok.inj mounted
  obtain ⟨rest, issued, cut⟩ := clearRecover_rest vol (.fresh d)
  rw [issued, show (Device.fresh d).issued ++ rest = rest from rfl]
  rcases cut n with same | clear
  · rw [show applyWrites (rest.take n) d = d from same]
    exact ⟨_, idle.recover c rounds, rfl⟩
  · rw [show applyWrites (rest.take n) d = Ext2.settled vol d from clear]
    refine ⟨_, (idle.settled c).recover c rounds, ?_⟩
    rw [clearRecover_disk, clearRecover_disk]
    exact settled_again vol d

theorem Published.writes {ws : List (Nat × Bytes)} (c : Committable vol j J disk txn) (found : Published vol j J disk txn d)
    (part : ∀ w ∈ ws, w ∈ txn) : Published vol j J disk txn (applyWrites ws d) := by
  obtain ⟨_, maxlen, _, first, _⟩ := c.super_words
  have length : (published j (disk (J 0))).maxlen = j.maxlen := maxlen.symm
  have few := c.fits
  have room := c.room
  have journal : ∀ lb < j.maxlen, applyWrites ws d (J lb) = d (J lb) := fun lb inside =>
    applyWrites_other fun w member => (c.outside w (part w member) lb inside).symm
  refine ⟨found.held.writes _ fun w member => .inr (part w member), (journal 0 c.positive).trans found.super, found.log.congr ?_ ?_ ?_⟩
  · rw [length]
    change j.first + 1 + txn.length < j.maxlen
    omega
  · rw [length]
    change (disk (J 0)).be32 20 < j.maxlen
    split at first <;> omega
  · rw [length]
    exact journal

/-- What recovery writes for a published transaction, before it clears the flag. -/
def repair (j : Journal) (J : Nat → Nat) (disk d : Disk) (txn : List (Nat × Bytes)) : List (Nat × Bytes) :=
  written (published j (disk (J 0))) txn ++ [(J 0, jsbSet (d (J 0)) 0 ((j.seq + 1) % 2 ^ 32))]

theorem written_part (js : JournalSuper) (txn : List (Nat × Bytes)) : ∀ w ∈ written js txn, w ∈ txn := by
  intro w member
  unfold written at member
  split at member
  · exact member
  · exact nomatch member

section
variable (c : Committable vol j J disk txn)
include c

theorem Published.device (found : Published vol j J disk txn d) (rounds : Nat) :
    jbd2Recover vol (rounds + 3) d = .ok (clearRecover vol ⟨applyWrites (repair j J disk d txn) d, repair j J disk d txn⟩) := by
  have device : (Device.fresh d).writeAll (repair j J disk d txn) = ⟨applyWrites (repair j J disk d txn) d, repair j J disk d txn⟩ :=
    Device.writeAll_eq ..
  rw [found.recover c rounds, ← device, repair, Device.writeAll_append]
  rfl

theorem Published.repaired (found : Published vol j J disk txn d) :
    Idle vol j J disk txn (applyWrites (repair j J disk d txn) d) := by
  have super : applyWrites (repair j J disk d txn) d (J 0) = jsbSet (d (J 0)) 0 ((j.seq + 1) % 2 ^ 32) := by
    rw [repair, applyWrites_append]
    exact update_self ..
  refine ⟨?_, ?_, ?_⟩
  · rw [repair, applyWrites_append]
    exact (found.writes c (written_part _ txn)).held.journal c.positive
  · rw [super, jsbSet_other _ 0 (.inl (by decide)), found.super, jsbSet_other _ 0 (.inl (by decide))]
    exact c.super_words.1
  · rw [super]
    exact (jsbSet_words (by decide) (Nat.mod_lt _ (by decide))).1

theorem Published.again {dev : Device Bytes} (found : Published vol j J disk txn d) (n : Nat)
    (mounted : jbd2Recover vol (k + 3) d = .ok dev) :
    ∃ dev', jbd2Recover vol (rounds + 3) (applyWrites (dev.issued.take n) d) = .ok dev' ∧ dev'.disk = dev.disk := by
  rw [found.device c k] at mounted
  obtain rfl := Except.ok.inj mounted
  obtain ⟨rest, issued, tail⟩ := clearRecover_rest vol ⟨applyWrites (repair j J disk d txn) d, repair j J disk d txn⟩
  have length : (repair j J disk d txn).length = (written (published j (disk (J 0))) txn).length + 1 := by
    rw [repair, length_append]
    rfl
  rw [issued, clearRecover_disk]
  simp only at tail ⊢
  by_cases early : n ≤ (written (published j (disk (J 0))) txn).length
  · -- The journal still says that the transaction is to be replayed.
    have cut : (repair j J disk d txn ++ rest).take n = (repair j J disk d txn).take n := take_append_of_le_length (by omega)
    have first : (repair j J disk d txn).take n = (written (published j (disk (J 0))) txn).take n := take_append_of_le_length early
    have still : Published vol j J disk txn (applyWrites ((repair j J disk d txn).take n) d) := by
      rw [first]
      exact found.writes c fun w member => written_part _ txn w (mem_of_mem_take member)
    have same : repair j J disk (applyWrites ((repair j J disk d txn).take n) d) txn = repair j J disk d txn := by
      rw [repair, still.super, ← found.super]
      rfl
    rw [cut]
    refine ⟨_, still.device c rounds, ?_⟩
    rw [clearRecover_disk, same]
    exact congrArg (settled vol) (applyWrites_again ..)
  · rw [take_append, take_of_length_le (by omega), applyWrites_append]
    have idle := found.repaired c
    rcases tail (n - (repair j J disk d txn).length) with same | clear
    · rw [same]
      exact ⟨_, idle.recover c _, clearRecover_disk ..⟩
    · rw [clear]
      refine ⟨_, (idle.settled c).recover c _, ?_⟩
      rw [clearRecover_disk]
      exact settled_again ..

/-- Part of the transaction is in place: neither the old nor the new volume. -/
def Torn (vol : Volume) (j : Journal) (J : Nat → Nat) (disk : Disk) (txn : List (Nat × Bytes)) (m : Nat) : Prop :=
  (∃ b, Outside j J b ∧ settle vol b (applyWrites (txn.take m) disk b) ≠ settle vol b (disk b)) ∧
    ∃ b, Outside j J b ∧ settle vol b (applyWrites (txn.take m) disk b) ≠ settle vol b (applyWrites txn disk b)

theorem torn_between {front back : List (Nat × Bytes)} {v w : Nat × Bytes} (split : txn = front ++ v :: back)
    (later : w ∈ back) (changed : ¬Unchanged vol disk v) (changed' : ¬Unchanged vol disk w) : Torn vol j J disk txn (front.length + 1) := by
  have part : txn.take (front.length + 1) = front ++ [v] := by
    rw [split, take_append, take_of_length_le (by omega), Nat.add_sub_cancel_left]
    rfl
  have unique : ((front ++ [v]).map Prod.fst ++ back.map Prod.fst).Nodup := by
    rw [← map_append, append_assoc, singleton_append, ← split]
    exact c.unique
  have absent : ∀ u ∈ front ++ [v], u.1 ≠ w.1 := fun u member same =>
    disjoint_of_nodup_append unique (List.mem_map_of_mem member) (same ▸ List.mem_map_of_mem later)
  have first : v ∈ txn := split ▸ mem_append_cons_self
  have second : w ∈ txn := split ▸ mem_append_right _ (mem_cons_of_mem _ later)
  refine ⟨⟨v.1, c.outside v first, ?_⟩, w.1, c.outside w second, ?_⟩
  · rw [part, applyWrites_mem (x := v.2) unique.of_append_left (mem_append_right _ (mem_singleton_self _))]
    exact changed
  · rw [part, applyWrites_other absent, applyWrites_mem (x := w.2) c.unique second]
    exact fun same => changed' same.symm

theorem torn_of_changes (many : ¬OneChange vol disk txn) : ∃ m ≤ txn.length, Torn vol j J disk txn m := by
  simp only [OneChange, not_forall, not_or] at many
  obtain ⟨v, first, w, second, different, changed, changed'⟩ := many
  obtain ⟨front, back, split⟩ := append_of_mem first
  rw [split] at second
  rcases mem_append.mp second with before | after
  · obtain ⟨front', back', split'⟩ := append_of_mem before
    have whole : txn = front' ++ w :: (back' ++ v :: back) := by
      rw [split, split', append_assoc, cons_append]
    refine ⟨front'.length + 1, ?_, torn_between c whole (mem_append_cons_self) changed' changed⟩
    rw [whole, length_append, length_cons]
    omega
  · rcases mem_cons.mp after with rfl | later
    · exact absurd rfl different
    · refine ⟨front.length + 1, ?_, torn_between c split later changed changed'⟩
      rw [split, length_append, length_cons]
      omega

end

end

def sampleVolume : Volume where
  blkSize := 1024
  inodesPerGroup := 8
  inodeSize := 128
  firstDataBlock := 1
  descSize := 32
  csum := false

def sampleInode : Bytes :=
  (((((zeros.wr32 32 extentsFlag).wr16 40 extentMagic).wr16 42 1).wr16 44 4).wr16 56 70).wr32 60 100

def sampleSuper (seq : Nat) : Bytes :=
  ((((zeros.wbe32 0 jbd2Magic).wbe32 4 4).wbe32 16 70).wbe32 20 1).wbe32 24 seq

def sampleDisk (seq : Nat) : Disk := fun b =>
  if b = 1 then ((zeros.wr32 92 0x4).wr32 96 0x4).wr32 224 8
  else if b = 2 then zeros.wr32 8 3
  else if b = 3 then zeros.copy 896 sampleInode 128
  else if b = 100 then sampleSuper seq
  else zeros

def sampleMap (lb : Nat) : Nat := if lb < 70 then 100 + lb else 0

def sampleJournal (seq : Nat) : Journal where
  inode := (sampleDisk seq 3).drop 896
  first := 1
  maxlen := 70
  seq := seq
  cap := 64
  csum3 := false
  b64 := false
  csumSeed := e2Crc32c (BitVec.allOnes 32) (((sampleSuper seq).drop 0x30).take 16)
  uuid := (sampleSuper seq).drop 0x30

def sampleTxn : List (Nat × Bytes) := [(10, fun _ => 1), (11, fun _ => 1)]

theorem sampleSuper_other (seq off : Nat) (apart : off + 4 ≤ 24 ∨ 28 ≤ off) :
    (sampleSuper seq).be32 off = ((((zeros.wbe32 0 jbd2Magic).wbe32 4 4).wbe32 16 70).wbe32 20 1).be32 off :=
  rdBe_wrBe_apart apart

theorem sample_bmap (seq : Nat) (d : Disk) (lb : Nat) : bmapRead sampleVolume d (sampleJournal seq).inode lb = sampleMap lb := by
  have inode : (sampleJournal seq).inode = (zeros.copy 896 sampleInode 128).drop 896 := rfl
  have entries : ((zeros.copy 896 sampleInode 128).drop 896 |>.drop 40).rd16 2 = 0 + 1 := by decide +kernel
  have first : ((zeros.copy 896 sampleInode 128).drop 896 |>.drop 40).rd32 12 = 0 := by decide +kernel
  have len : ((zeros.copy 896 sampleInode 128).drop 896 |>.drop 40).rd16 (12 + 4) = 70 := by decide +kernel
  have start : ((zeros.copy 896 sampleInode 128).drop 896 |>.drop 40).rd32 (12 + 8) = 100 := by decide +kernel
  rw [inode, bmapRead, if_pos (by decide +kernel), show depthRounds = 65535 + 1 from rfl, extentBmap, if_neg (by decide +kernel),
    if_pos (by decide +kernel), entries, leafBmap]
  simp only [first, len, start, leafBmap]
  unfold sampleMap
  split <;> split <;> omega

section
variable {seq : Nat} {d : Disk} (held : Between sampleVolume (sampleJournal seq) sampleMap (sampleDisk seq) sampleTxn d)
include held

theorem sample_kept {b : Nat} (low : b < 10) : d b = sampleDisk seq b ∨ d b = settle sampleVolume b (sampleDisk seq b) := by
  have outside : ∀ lb < (sampleJournal seq).maxlen, sampleMap lb ≠ b := by
    intro lb inside
    change lb < 70 at inside
    rw [sampleMap, if_pos inside]
    omega
  obtain ⟨x, rfl | listed, same⟩ := held b outside
  · exact same
  · simp only [sampleTxn, mem_cons, not_mem_nil, or_false, Prod.mk.injEq] at listed
    omega

theorem sample_inum : journalInum sampleVolume d = 8 := by
  have block := sample_kept held (show 1 < 10 by decide)
  change d 1 = sampleDisk 0 1 ∨ d 1 = settle sampleVolume 1 (sampleDisk 0 1) at block
  rcases block with same | same
  · simp only [journalInum, readSuper, show sampleVolume.sbBlock = 1 from rfl, same]
    decide +kernel
  · simp only [journalInum, readSuper, show sampleVolume.sbBlock = 1 from rfl, same]
    decide +kernel

theorem sample_inode : inodeRead sampleVolume d 8 = some (sampleJournal seq).inode := by
  have table : d 2 = sampleDisk seq 2 := by
    rcases sample_kept held (show 2 < 10 by decide) with same | same
    · exact same
    · rw [same, settle_other _ (by decide)]
  have block : d 3 = sampleDisk seq 3 := by
    rcases sample_kept held (show 3 < 10 by decide) with same | same
    · exact same
    · rw [same, settle_other _ (by decide)]
  have itab : gdInodeTable sampleVolume d (inodeGroup sampleVolume 8) = 3 := by
    have gd : gdRead sampleVolume d (inodeGroup sampleVolume 8) = (d 2).drop 0 := rfl
    rw [gdInodeTable, gd, table]
    change ((sampleDisk 0 2).drop 0).rd32 8 = 3
    decide +kernel
  rw [inodeRead, if_neg (by decide), itab]
  change some ((d 3).drop 896) = _
  rw [block]
  rfl

end

theorem sample_super (seq : Nat) : jread sampleVolume (sampleDisk seq) (sampleJournal seq).inode 0 = some (sampleSuper seq) := by
  rw [jread, sample_bmap]
  exact if_neg (by decide)

theorem sample_words (seq : Nat) : (sampleSuper seq).be32 0 = jbd2Magic ∧ (sampleSuper seq).be32 16 = 70 ∧ (sampleSuper seq).be32 20 = 1 ∧
    (sampleSuper seq).be32 36 = 0 ∧ (sampleSuper seq).be32 40 = 0 := by
  refine ⟨?_, ?_, ?_, ?_, ?_⟩
  · exact (sampleSuper_other seq 0 (.inl (by decide))).trans (by decide +kernel)
  · exact (sampleSuper_other seq 16 (.inl (by decide))).trans (by decide +kernel)
  · exact (sampleSuper_other seq 20 (.inl (by decide))).trans (by decide +kernel)
  · exact (sampleSuper_other seq 36 (.inr (by decide))).trans (by decide +kernel)
  · exact (sampleSuper_other seq 40 (.inr (by decide))).trans (by decide +kernel)

theorem sample_init {seq : Nat} (numbered : seq < 2 ^ 32) : jtInit sampleVolume (sampleDisk seq) = some (sampleJournal seq) := by
  have number : (sampleSuper seq).be32 24 = seq := be32_wbe32 numbered
  obtain ⟨magic, maxlen, first, compat, incompat⟩ := sample_words seq
  have v3 : hasFlag ((sampleSuper seq).be32 40) incompatCsumV3 = false := by rw [incompat]; decide
  have wide : hasFlag ((sampleSuper seq).be32 40) incompat64bit = false := by rw [incompat]; decide
  have cap : min ((sampleVolume.blkSize - 12 - 16 - if false = true then 4 else 0) / tagSize false false) jtMax = 64 := by decide
  unfold jtInit
  rw [sample_inum between_start, sample_inode between_start, bind_eq_bind, bind_some, sample_super, bind_some,
    if_neg (fun differs => differs magic), if_neg (by rw [compat]; decide), if_neg (by rw [incompat]; decide)]
  simp only [maxlen, first, number, v3, wide, cap]
  rw [if_neg (by decide)]
  rfl

theorem sample_committable {seq : Nat} (numbered : seq < 2 ^ 32) :
    Committable sampleVolume (sampleJournal seq) sampleMap (sampleDisk seq) sampleTxn := by
  have inside : ∀ lb < (sampleJournal seq).maxlen, sampleMap lb = 100 + lb := fun lb inside => if_pos inside
  refine ⟨⟨sample_init numbered, by decide, show 2 ≤ 64 by decide, by decide, by decide⟩, ?_, ?_, ?_, ?_, ?_, ?_, ?_, ?_⟩
  · exact (sampleSuper_other seq 28 (.inr (by decide))).trans (by decide +kernel)
  · intro d held
    rw [sample_inum held]
    exact ⟨by decide, _, sample_inode held, fun d' _ lb => sample_bmap seq d' lb⟩
  · intro lb low
    rw [inside lb low]
    omega
  · intro lb low lb' low' same
    rw [inside lb low, inside lb' low'] at same
    omega
  · intro lb low
    rw [inside lb low]
    change 100 + lb ≠ 1
    omega
  · change 1 + 64 + 2 ≤ 70
    decide
  · intro lb low type listed headed
    rw [inside lb low] at headed
    by_cases zero : lb = 0
    · subst zero
      have kind : (sampleSuper seq).be32 4 = 4 := (sampleSuper_other seq 4 (.inl (by decide))).trans (by decide +kernel)
      have same : type = 4 := headed.type.symm.trans kind
      subst same
      exact absurd listed (by decide)
    · have empty : sampleDisk seq (100 + lb) = zeros := by
        unfold sampleDisk
        rw [if_neg (by omega), if_neg (by omega), if_neg (by omega), if_neg (by omega)]
      have magic := headed.magic
      rw [empty] at magic
      exact absurd magic (by decide +kernel)
  · intro w member lb low
    rw [inside lb low]
    simp only [sampleTxn, mem_cons, not_mem_nil, or_false] at member
    rcases member with rfl | rfl <;> simp only <;> omega

end SecOS.Ext2
