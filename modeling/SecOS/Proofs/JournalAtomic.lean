import SecOS.Proofs.JournalReplay

/-! A power cut during `jt_commit`. A mount finds an idle journal, or the whole transaction in the
log, which it writes back unless the sequence number wraps. -/

namespace SecOS.Ext2
open Library Function List Bytes

/-- The superblock's block with the flag cleared, any other block as it is. -/
def settle (vol : Volume) (b : Nat) (x : Bytes) : Bytes :=
  if b = vol.sbBlock ∧ hasFlag ((x.drop vol.sbOffset).rd32 96) 0x4 then
    putSuper vol x (sbFinalizeCsum vol ((x.drop vol.sbOffset).wr32 96 ((x.drop vol.sbOffset).rd32 96 &&& 0xFFFFFFFB)))
  else x

def settled (vol : Volume) (d : Disk) : Disk := fun b => settle vol b (d b)

variable {vol : Volume} {b : Nat}

theorem settle_other (x : Bytes) (other : b ≠ vol.sbBlock) : settle vol b x = x := if_neg fun both => other both.1

theorem clearRecover_cases (vol : Volume) (dev : Device Bytes) :
    clearRecover vol dev = dev.write vol.sbBlock (settle vol vol.sbBlock (dev.disk vol.sbBlock)) ∨
      clearRecover vol dev = dev ∧ settle vol vol.sbBlock (dev.disk vol.sbBlock) = dev.disk vol.sbBlock := by
  by_cases flagged : hasFlag ((readSuper vol dev.disk).rd32 96) 0x4
  · have new : settle vol vol.sbBlock (dev.disk vol.sbBlock) = _ := if_pos ⟨rfl, flagged⟩
    rw [new]
    exact .inl (if_pos flagged)
  · exact .inr ⟨if_neg flagged, if_neg fun both => flagged both.2⟩

theorem clearRecover_disk (vol : Volume) (dev : Device Bytes) : (clearRecover vol dev).disk = settled vol dev.disk := by
  funext b
  unfold settled
  by_cases here : b = vol.sbBlock
  · subst here
    rcases clearRecover_cases vol dev with cleared | ⟨same, clear⟩
    · rw [cleared]
      exact update_self ..
    · rw [same, clear]
  · rw [settle_other _ here]
    rcases clearRecover_cases vol dev with cleared | ⟨same, _⟩
    · rw [cleared]
      exact update_of_ne here ..
    · rw [same]

theorem cleared_flag (v : Nat) : hasFlag (v &&& 0xFFFFFFFB) 0x4 = false := by
  unfold hasFlag
  rw [Nat.and_assoc]
  simp

theorem drop_putSuper (x sb : Bytes) {i : Nat} (inside : i < 1024) : (putSuper vol x sb).drop vol.sbOffset i = sb i := by
  rw [Bytes.drop, putSuper, copy_in (by omega) (by omega), Nat.add_sub_cancel_left]

theorem sbFinalizeCsum_below {sb : Bytes} {i : Nat} (low : i < 0x3FC) : sbFinalizeCsum vol sb i = sb i := by
  unfold sbFinalizeCsum
  split
  · exact wr_out (.inl low)
  · rfl

theorem settle_settle (vol : Volume) (b : Nat) (x : Bytes) : settle vol b (settle vol b x) = settle vol b x := by
  by_cases flagged : b = vol.sbBlock ∧ hasFlag ((x.drop vol.sbOffset).rd32 96) 0x4
  · have clear : hasFlag (((settle vol b x).drop vol.sbOffset).rd32 96) 0x4 = false := by
      have word : ((settle vol b x).drop vol.sbOffset).rd32 96 = (x.drop vol.sbOffset).rd32 96 &&& 0xFFFFFFFB := by
        rw [settle, if_pos flagged, rd32, rd_congr fun i _ up => (drop_putSuper x _ (by omega)).trans (sbFinalizeCsum_below (by omega)),
          wr32, rd_wr]
        exact Nat.mod_eq_of_lt (Nat.lt_of_le_of_lt Nat.and_le_right (by decide))
      rw [word, cleared_flag]
    rw [settle, if_neg]
    rw [clear]
    exact fun both => nomatch both.2
  · have same : settle vol b x = x := if_neg flagged
    rw [same, same]

section
variable {vol : Volume} {j : Journal} {J : Nat → Nat} {disk d : Disk} {txn : List (Nat × Bytes)} {now k rounds lb : Nat}

/-- Outside the journal every block is as before or as the transaction has it, the superblock's flag aside. -/
def Between (vol : Volume) (j : Journal) (J : Nat → Nat) (disk : Disk) (txn : List (Nat × Bytes)) (d : Disk) : Prop :=
  ∀ b, (∀ lb < j.maxlen, J lb ≠ b) → ∃ x, (x = disk b ∨ (b, x) ∈ txn) ∧ (d b = x ∨ d b = settle vol b x)

theorem between_start : Between vol j J disk txn disk := fun b _ => ⟨disk b, .inl rfl, .inl rfl⟩

theorem Between.target {w : Nat × Bytes} (held : Between vol j J disk txn d) (member : w ∈ txn) :
    Between vol j J disk txn (update d w.1 w.2) := by
  intro b outside
  by_cases here : b = w.1
  · subst here
    exact ⟨w.2, .inr member, .inl (update_self ..)⟩
  · rw [update_of_ne here]
    exact held b outside

theorem Between.journal {x : Bytes} (held : Between vol j J disk txn d) (inside : lb < j.maxlen) :
    Between vol j J disk txn (update d (J lb) x) := by
  intro b outside
  rw [update_of_ne (outside lb inside).symm]
  exact held b outside

theorem Between.settled (held : Between vol j J disk txn d) : Between vol j J disk txn (settled vol d) := by
  intro b outside
  obtain ⟨x, known, same⟩ := held b outside
  refine ⟨x, known, .inr ?_⟩
  rcases same with same | same
  · rw [Ext2.settled, same]
  · rw [Ext2.settled, same, settle_settle]

/-- A mounted journal and a transaction that `jt_commit` is called with. -/
structure CommitCall (vol : Volume) (j : Journal) (disk : Disk) (txn : List (Nat × Bytes)) : Prop where
  init : jtInit vol disk = some j
  filled : txn ≠ []
  fits : txn.length ≤ j.cap
  unique : (txn.map Prod.fst).Nodup
  small : ∀ w ∈ txn, w.1 < 2 ^ 32

/-- What `jt_init` does not check. The log is empty, mapped one to one and has room for a full
transaction (the 32-bit sum it compares with `s_maxlen` can wrap). No block of it carries the next
number. The buffered blocks lie outside and keep the journal's inode and map as they are. -/
structure SaneJournal (vol : Volume) (j : Journal) (J : Nat → Nat) (disk : Disk) (txn : List (Nat × Bytes)) : Prop where
  idle : (disk (J 0)).be32 28 = 0
  steady : ∀ d, Between vol j J disk txn d → journalInum vol d ≠ 0 ∧ ∃ jin, inodeRead vol d (journalInum vol d) = some jin ∧
    ∀ d', Between vol j J disk txn d' → ∀ lb, bmapRead vol d' jin lb = J lb
  mapped : ∀ lb < j.maxlen, J lb ≠ 0
  distinct : ∀ lb < j.maxlen, ∀ lb' < j.maxlen, J lb = J lb' → lb = lb'
  super : ∀ lb < j.maxlen, J lb ≠ vol.sbBlock
  room : j.first + j.cap + 2 ≤ j.maxlen
  quiet : ∀ lb < j.maxlen, ∀ type ∈ [descriptorBlock, commitBlock, revokeBlock], ¬Headed (disk (J lb)) type ((j.seq + 1) % 2 ^ 32)
  outside : ∀ w ∈ txn, ∀ lb < j.maxlen, J lb ≠ w.1

structure Committable (vol : Volume) (j : Journal) (J : Nat → Nat) (disk : Disk) (txn : List (Nat × Bytes)) : Prop extends
  CommitCall vol j disk txn, SaneJournal vol j J disk txn

theorem jtInit_some (init : jtInit vol disk = some j) : ∃ jsb, inodeRead vol disk (journalInum vol disk) = some j.inode ∧
    jread vol disk j.inode 0 = some jsb ∧ jsb.be32 0 = jbd2Magic ∧ j.maxlen = jsb.be32 16 ∧ j.seq = jsb.be32 24 ∧
    j.first = (if jsb.be32 20 = 0 then 1 else jsb.be32 20) ∧ j.csum3 = hasFlag (jsb.be32 40) incompatCsumV3 ∧
    j.b64 = hasFlag (jsb.be32 40) incompat64bit ∧
    j.cap = min ((vol.blkSize - 12 - 16 - (if j.csum3 then 4 else 0)) / tagSize j.csum3 j.b64) jtMax := by
  unfold jtInit at init
  obtain ⟨inode, found, init⟩ := Option.bind_eq_some_iff.mp init
  obtain ⟨jsb, read, init⟩ := Option.bind_eq_some_iff.mp init
  simp only [Option.ite_none_left_eq_some] at init
  obtain ⟨magic, _, _, _, init⟩ := init
  cases init
  exact ⟨jsb, found, read, not_not.mp magic, rfl, rfl, rfl, rfl, rfl, rfl⟩

namespace Committable

variable (c : Committable vol j J disk txn)
include c

theorem map : MapOn vol j.inode J (Between vol j J disk txn) := by
  obtain ⟨_, jin, found, map⟩ := c.steady disk between_start
  obtain ⟨_, same, _⟩ := jtInit_some c.init
  obtain rfl := Option.some.inj (same.symm.trans found)
  exact map

theorem positive : 0 < j.maxlen := by
  have := c.room
  omega

theorem super_words : (disk (J 0)).be32 0 = jbd2Magic ∧ j.maxlen = (disk (J 0)).be32 16 ∧
    j.seq = (disk (J 0)).be32 24 ∧ j.first = (if (disk (J 0)).be32 20 = 0 then 1 else (disk (J 0)).be32 20) ∧
    j.csum3 = hasFlag ((disk (J 0)).be32 40) incompatCsumV3 ∧ j.b64 = hasFlag ((disk (J 0)).be32 40) incompat64bit := by
  obtain ⟨jsb, _, read, magic, maxlen, seq, first, csum3, b64, _⟩ := jtInit_some c.init
  rw [c.map.jread between_start (c.mapped 0 c.positive)] at read
  cases read
  exact ⟨magic, maxlen, seq, first, csum3, b64⟩

theorem seq_lt : j.seq < 2 ^ 32 := by
  rw [c.super_words.2.2.1]
  exact be32_lt ..

theorem maxlen_lt : j.maxlen < 2 ^ 32 := by
  rw [c.super_words.2.1]
  exact be32_lt ..

theorem first_pos : 0 < j.first := by
  rw [c.super_words.2.2.2.1]
  split <;> omega

theorem tags_fit : 28 + txn.length * tagSize j.csum3 j.b64 ≤ tagLimit vol j := by
  obtain ⟨_, _, _, _, _, _, _, _, _, cap⟩ := jtInit_some c.init
  have some := List.length_pos_iff.mpr c.filled
  have pos := tagSize_pos j.csum3 j.b64
  have few : txn.length ≤ (vol.blkSize - 12 - 16 - (if j.csum3 then 4 else 0)) / tagSize j.csum3 j.b64 := by
    have := c.fits
    omega
  have bytes := (Nat.le_div_iff_mul_le pos).mp few
  have least : 1 * 1 ≤ txn.length * tagSize j.csum3 j.b64 := Nat.mul_le_mul some pos
  unfold tagLimit
  omega

end Committable

def published (j : Journal) (jsb : Bytes) : JournalSuper := { JournalSuper.read jsb with start := j.first, seq := j.seq }

theorem Committable.readable {jin : Bytes} (c : Committable vol j J disk txn) (map : MapOn vol jin J (Between vol j J disk txn)) :
    Readable vol jin j (published j (disk (J 0))) J (Between vol j J disk txn) txn := by
  obtain ⟨_, maxlen, _, _, csum3, b64⟩ := c.super_words
  have length : (published j (disk (J 0))).maxlen = j.maxlen := maxlen.symm
  have limit : tagLimit vol j ≤ vol.blkSize := Nat.sub_le ..
  have fits := c.tags_fit
  have few := c.fits
  have room := c.room
  refine ⟨map, ⟨csum3.symm, b64.symm⟩, ?_, ?_, c.filled, ⟨c.small, ?_, fun d held w member => held.target member⟩, by omega, ?_⟩
  · rw [length]
    exact Nat.le_of_lt c.maxlen_lt
  · rw [length]
    exact c.mapped
  · rw [length]
    exact c.outside
  · rw [length]
    change j.first + 1 + txn.length < j.maxlen
    omega

def logWrites (J : Nat → Nat) : Nat → List (Nat × Bytes) → List (Nat × Bytes)
  | _, [] => []
  | lb, w :: rest => (J lb, stored w.2) :: logWrites J (lb + 1) rest

def logOf (vol : Volume) (j : Journal) (J : Nat → Nat) (now : Nat) (txn : List (Nat × Bytes)) : List (Nat × Bytes) :=
  (J j.first, descriptor vol j txn) :: (logWrites J (j.first + 1) txn ++ [(J (j.first + 1 + txn.length), commitRecord vol j now)])

def publication (j : Journal) (J : Nat → Nat) (disk : Disk) : Nat × Bytes := (J 0, jsbSet (disk (J 0)) j.first j.seq)

def retirement (j : Journal) (J : Nat → Nat) (disk : Disk) : Nat × Bytes :=
  (J 0, jsbSet (jsbSet (disk (J 0)) j.first j.seq) 0 ((j.seq + 1) % 2 ^ 32))

theorem logWrites_keys (txn : List (Nat × Bytes)) : ∀ lb, (logWrites J lb txn).map Prod.fst = (List.range' lb txn.length).map J := by
  induction txn with
  | nil => exact fun _ => rfl
  | cons w rest ih =>
    intro lb
    rw [logWrites, map_cons, ih, length_cons, range'_succ, map_cons]

theorem logOf_keys : (logOf vol j J now txn).map Prod.fst = (List.range' j.first (txn.length + 2)).map J := by
  rw [logOf, map_cons, map_append, logWrites_keys, range'_succ, range'_concat]
  simp [map_append]

theorem logOf_length : (logOf vol j J now txn).length = txn.length + 2 := by
  have keys : ((logOf vol j J now txn).map Prod.fst).length = _ := congrArg List.length logOf_keys
  rwa [length_map, length_map, length_range'] at keys

theorem Between.writes (ws : List (Nat × Bytes)) : ∀ {d : Disk}, Between vol j J disk txn d →
    (∀ w ∈ ws, (∃ lb < j.maxlen, J lb = w.1) ∨ w ∈ txn) → Between vol j J disk txn (applyWrites ws d) := by
  induction ws with
  | nil => exact fun held _ => held
  | cons w rest ih =>
    intro d held known
    obtain ⟨b, x⟩ := w
    rw [applyWrites_cons]
    refine ih ?_ fun v member => known v (mem_cons_of_mem _ member)
    rcases known _ mem_cons_self with ⟨lb, inside, rfl⟩ | member
    · exact held.journal inside
    · exact held.target member

section
variable (map : MapOn vol j.inode J (Between vol j J disk txn))
include map

theorem jwrite_eq {dev : Device Bytes} {x : Bytes}
    (held : Between vol j J disk txn dev.disk) (mapped : J lb ≠ 0) : jwrite vol j dev lb x = dev.write (J lb) x := by
  simp only [jwrite, map _ held, mapped, if_false]

theorem jwriteAll_eq (mapped : ∀ lb < j.maxlen, J lb ≠ 0) (list : List (Nat × Bytes)) :
    ∀ {dev : Device Bytes} {lb : Nat}, Between vol j J disk txn dev.disk → lb + list.length ≤ j.maxlen →
      jwriteAll vol j dev lb list = dev.writeAll (logWrites J lb list) := by
  induction list with
  | nil => exact fun _ _ => rfl
  | cons w rest ih =>
    intro dev lb held room
    rw [length_cons] at room
    rw [jwriteAll, jwrite_eq map held (mapped lb (by omega)), ih (held.journal (by omega)) (by omega)]
    rfl

theorem jsbUpdate_eq {dev : Device Bytes} {start seq : Nat}
    (held : Between vol j J disk txn dev.disk) (mapped : J 0 ≠ 0) :
    jsbUpdate vol j dev (J 0) start seq = dev.write (J 0) (jsbSet (dev.disk (J 0)) start seq) := by
  simp only [jsbUpdate, map.jread held mapped, mapped, if_false]

end

theorem log_known {w : Nat × Bytes} (member : w ∈ logOf vol j J now txn) : ∃ lb, j.first ≤ lb ∧ lb < j.first + 2 + txn.length ∧ J lb = w.1 := by
  have key : w.1 ∈ (logOf vol j J now txn).map Prod.fst := mem_map_of_mem member
  rw [logOf_keys] at key
  obtain ⟨lb, listed, same⟩ := List.mem_map.mp key
  obtain ⟨low, up⟩ := mem_range'_1.mp listed
  exact ⟨lb, low, by omega, same⟩

namespace Committable

variable (c : Committable vol j J disk txn)
include c

theorem log_other (inside : lb < j.maxlen) (other : lb < j.first ∨ j.first + 2 + txn.length ≤ lb) :
    applyWrites (logOf vol j J now txn) d (J lb) = d (J lb) := by
  refine applyWrites_other fun w member same => ?_
  obtain ⟨lb', low, up, key⟩ := log_known member
  have few := c.fits
  have room := c.room
  have := c.distinct lb inside lb' (by omega) (same.symm.trans key.symm)
  omega

theorem log_between (held : Between vol j J disk txn d) : Between vol j J disk txn (applyWrites (logOf vol j J now txn) d) := by
  have few := c.fits
  have room := c.room
  refine held.writes _ fun w member => ?_
  obtain ⟨lb, _, up, key⟩ := log_known member
  exact .inl ⟨lb, by omega, key⟩

theorem jtCommit_eq (now : Nat) : jtCommit vol j now txn (.fresh disk) =
    (Device.fresh disk).writeAll (logOf vol j J now txn ++ publication j J disk :: (txn ++ [retirement j J disk])) := by
  have few := c.fits
  have room := c.room
  have first := c.first_pos
  have zero : J 0 ≠ 0 := c.mapped 0 c.positive
  have some : txn.isEmpty = false := List.isEmpty_eq_false_iff.mpr c.filled
  have start : jwrite vol j (.fresh disk) j.first (descriptor vol j txn) = (Device.fresh disk).write (J j.first) (descriptor vol j txn) :=
    jwrite_eq c.map between_start (c.mapped _ (by omega))
  have head : Between vol j J disk txn ((Device.fresh disk).write (J j.first) (descriptor vol j txn)).disk := between_start.journal (by omega)
  have data : jwriteAll vol j ((Device.fresh disk).write (J j.first) (descriptor vol j txn)) (j.first + 1) txn = _ :=
    jwriteAll_eq c.map c.mapped txn head (by omega)
  have body : Between vol j J disk txn
      (((Device.fresh disk).write (J j.first) (descriptor vol j txn)).writeAll (logWrites J (j.first + 1) txn)).disk := by
    rw [Device.writeAll_eq]
    refine head.writes _ fun w member => ?_
    have listed : w ∈ logOf vol j J now txn := mem_cons_of_mem _ (mem_append_left _ member)
    obtain ⟨lb, _, up, key⟩ := log_known listed
    exact .inl ⟨lb, by omega, key⟩
  have logged : jwrite vol j (jwriteAll vol j (jwrite vol j (.fresh disk) j.first (descriptor vol j txn)) (j.first + 1) txn)
      (j.first + 1 + txn.length) (commitRecord vol j now) = (Device.fresh disk).writeAll (logOf vol j J now txn) := by
    rw [start, data, jwrite_eq c.map body (c.mapped _ (by omega)), logOf, ← cons_append, Device.writeAll_append]
    rfl
  have disk1 : ((Device.fresh disk).writeAll (logOf vol j J now txn)).disk = applyWrites (logOf vol j J now txn) disk :=
    congrArg Device.disk (Device.writeAll_eq ..)
  have held1 : Between vol j J disk txn ((Device.fresh disk).writeAll (logOf vol j J now txn)).disk := disk1 ▸ c.log_between between_start
  have super1 : ((Device.fresh disk).writeAll (logOf vol j J now txn)).disk (J 0) = disk (J 0) := by
    rw [disk1]
    exact c.log_other c.positive (.inl first)
  rw [jtCommit, some]
  simp only [Bool.false_eq_true, if_false, logged]
  rw [c.map _ held1, jsbUpdate_eq c.map held1 zero, super1, Device.writeAll_append]
  generalize (Device.fresh disk).writeAll (logOf vol j J now txn) = dev at held1
  have held2 : Between vol j J disk txn (dev.write (J 0) (jsbSet (disk (J 0)) j.first j.seq)).disk := held1.journal c.positive
  have held3 : Between vol j J disk txn ((dev.write (J 0) (jsbSet (disk (J 0)) j.first j.seq)).writeAll txn).disk := by
    rw [Device.writeAll_eq]
    exact held2.writes txn fun w member => .inr member
  have super3 : ((dev.write (J 0) (jsbSet (disk (J 0)) j.first j.seq)).writeAll txn).disk (J 0) = jsbSet (disk (J 0)) j.first j.seq := by
    rw [Device.writeAll_eq]
    exact (applyWrites_other fun w member => (c.outside w member 0 c.positive).symm).trans (update_self ..)
  rw [jsbUpdate_eq c.map held3 zero, super3]
  change _ = (dev.write _ _).writeAll (txn ++ [retirement j J disk])
  rw [Device.writeAll_append]
  rfl

theorem log_unique : ((logOf vol j J now txn).map Prod.fst).Nodup := by
  have few := c.fits
  have room := c.room
  rw [logOf_keys]
  refine List.Nodup.map_on (fun lb listed lb' listed' same => ?_) nodup_range'
  have inside := mem_range'_1.mp listed
  have inside' := mem_range'_1.mp listed'
  exact c.distinct lb (by omega) lb' (by omega) same

end Committable

theorem logged_of_writes (txn : List (Nat × Bytes)) : ∀ {lb : Nat}, (∀ w ∈ logWrites J lb txn, d w.1 = w.2) → Logged J d lb txn := by
  induction txn with
  | nil => exact fun _ => trivial
  | cons w rest ih => exact fun known => ⟨known _ mem_cons_self, ih fun v member => known v (mem_cons_of_mem _ member)⟩

structure Idle (vol : Volume) (j : Journal) (J : Nat → Nat) (disk : Disk) (txn : List (Nat × Bytes)) (d : Disk) : Prop where
  held : Between vol j J disk txn d
  magic : (d (J 0)).be32 0 = jbd2Magic
  idle : (d (J 0)).be32 28 = 0

/-- The whole transaction is in the log and the journal's superblock points to it. -/
structure Published (vol : Volume) (j : Journal) (J : Nat → Nat) (disk : Disk) (txn : List (Nat × Bytes)) (d : Disk) : Prop where
  held : Between vol j J disk txn d
  super : d (J 0) = jsbSet (disk (J 0)) j.first j.seq
  log : LogOf vol j (published j (disk (J 0))) J txn d

section
variable (c : Committable vol j J disk txn)
include c

theorem Idle.recover (idle : Idle vol j J disk txn d) (rounds : Nat) :
    jbd2Recover vol rounds d = .ok (clearRecover vol (.fresh d)) := by
  obtain ⟨inum, jin, found, map⟩ := c.steady d idle.held
  exact recover_idle map idle.held (c.mapped 0 c.positive) ⟨inum, found, idle.magic, rfl⟩ idle.idle

theorem Published.recover (found : Published vol j J disk txn d) (rounds : Nat) :
    jbd2Recover vol (rounds + 3) d = .ok (clearRecover vol (((Device.fresh d).writeAll (written (published j (disk (J 0))) txn)).write (J 0)
      (jsbSet (d (J 0)) 0 ((j.seq + 1) % 2 ^ 32)))) := by
  obtain ⟨inum, jin, read, map⟩ := c.steady d found.held
  have first := c.first_pos
  have low : j.first < 2 ^ 32 := by
    have := c.room
    have := c.maxlen_lt
    omega
  refine recover_published (c.readable map) found.held ⟨inum, read, ?_, ?_⟩ (Nat.ne_of_gt first) found.log c.seq_lt
  · rw [found.super, jsbSet_other _ 0 (.inl (by decide))]
    exact c.super_words.1
  · rw [found.super]
    exact read_jsbSet low c.seq_lt

def crashed (vol : Volume) (j : Journal) (now : Nat) (disk : Disk) (txn : List (Nat × Bytes)) (k : Nat) : Disk :=
  applyWrites ((jtCommit vol j now txn (.fresh disk)).issued.take k) disk

def Outside (j : Journal) (J : Nat → Nat) (b : Nat) : Prop := ∀ lb < j.maxlen, J lb ≠ b

theorem Committable.log_outside {ws : List (Nat × Bytes)} (outside : Outside j J b)
    (part : ∀ w ∈ ws, w ∈ logOf vol j J now txn) : applyWrites ws disk b = disk b := by
  have few := c.fits
  have room := c.room
  refine applyWrites_other fun w member => ?_
  obtain ⟨lb, _, up, key⟩ := log_known (part w member)
  exact fun same => outside lb (by omega) (key.trans same)

theorem crashed_logging (early : k ≤ txn.length + 2) :
    Idle vol j J disk txn (crashed vol j now disk txn k) ∧ ∀ b, Outside j J b → crashed vol j now disk txn k b = disk b := by
  have few := c.fits
  have room := c.room
  have first := c.first_pos
  have writes : crashed vol j now disk txn k = applyWrites ((logOf vol j J now txn).take k) disk := by
    rw [crashed, c.jtCommit_eq, Device.writeAll_eq]
    change applyWrites (List.take k (logOf vol j J now txn ++ _)) disk = _
    rw [take_append_of_le_length (by rw [logOf_length]; exact early)]
  have known : ∀ w ∈ (logOf vol j J now txn).take k, w ∈ logOf vol j J now txn := fun w member => mem_of_mem_take member
  have super : crashed vol j now disk txn k (J 0) = disk (J 0) := by
    rw [writes]
    refine applyWrites_other fun w member same => ?_
    obtain ⟨lb, low, up, key⟩ := log_known (known w member)
    have := c.distinct lb (by omega) 0 c.positive (key.trans same)
    omega
  refine ⟨⟨?_, ?_, ?_⟩, fun b outside => ?_⟩
  · rw [writes]
    refine between_start.writes _ fun w member => ?_
    obtain ⟨lb, _, up, key⟩ := log_known (known w member)
    exact .inl ⟨lb, by omega, key⟩
  · rw [super]
    exact c.super_words.1
  · rw [super]
    exact c.idle
  · rw [writes]
    exact c.log_outside outside known

end

def checkpointed (vol : Volume) (j : Journal) (J : Nat → Nat) (now : Nat) (disk : Disk) (txn : List (Nat × Bytes)) (m : Nat) : Disk :=
  applyWrites (txn.take m) (update (applyWrites (logOf vol j J now txn) disk) (J 0) (jsbSet (disk (J 0)) j.first j.seq))

variable {m : Nat}

variable (c : Committable vol j J disk txn)
include c

theorem crashed_eq_checkpointed (within : m ≤ txn.length) :
    crashed vol j now disk txn (txn.length + 3 + m) = checkpointed vol j J now disk txn m := by
  rw [crashed, c.jtCommit_eq, Device.writeAll_eq]
  change applyWrites (List.take (txn.length + 3 + m) (logOf vol j J now txn ++ _)) disk = _
  have after : txn.length + 3 + m - (logOf vol j J now txn).length = m + 1 := by
    rw [logOf_length]
    omega
  rw [take_append, take_of_length_le (by rw [logOf_length]; omega), after, take_succ_cons, take_append_of_le_length within,
    applyWrites_append]
  rfl

theorem checkpointed_journal (inside : lb < j.maxlen) (other : 0 < lb) :
    checkpointed vol j J now disk txn m (J lb) = applyWrites (logOf vol j J now txn) disk (J lb) := by
  have away : J lb ≠ J 0 := fun same => by
    have := c.distinct lb inside 0 c.positive same
    omega
  rw [checkpointed, applyWrites_other fun w member => (c.outside w (mem_of_mem_take member) lb inside).symm, update_of_ne away]

theorem checkpointed_super : checkpointed vol j J now disk txn m (J 0) = jsbSet (disk (J 0)) j.first j.seq := by
  rw [checkpointed, applyWrites_other fun w member => (c.outside w (mem_of_mem_take member) 0 c.positive).symm, update_self]

theorem checkpointed_outside (outside : Outside j J b) :
    checkpointed vol j J now disk txn m b = applyWrites (txn.take m) disk b := by
  refine applyWrites_congr fun _ => ?_
  rw [update_of_ne (outside 0 c.positive).symm]
  exact c.log_outside outside fun w member => member

theorem checkpointed_log : LogOf vol j (published j (disk (J 0))) J txn (checkpointed vol j J now disk txn m) := by
  have few := c.fits
  have room := c.room
  have first := c.first_pos
  have fits := c.tags_fit
  have seq := c.seq_lt
  -- What the log holds: the descriptor, the data and the commit block.
  have known : ∀ w ∈ logOf vol j J now txn, checkpointed vol j J now disk txn m w.1 = w.2 := by
    intro w member
    obtain ⟨lb, low, up, key⟩ := log_known member
    rw [← key, checkpointed_journal c (by omega) (by omega), key]
    exact applyWrites_mem c.log_unique member
  have described : checkpointed vol j J now disk txn m (J j.first) = descriptor vol j txn := known _ mem_cons_self
  have headed : Headed (checkpointed vol j J now disk txn m (J j.first)) descriptorBlock j.seq := by
    rw [described]
    exact descriptor_headed (by omega) seq
  refine ⟨headed, ?_, ?_, ?_, ?_⟩
  · change Tagged j (checkpointed vol j J now disk txn m (J j.first)) true txn 12
    rw [described]
    exact descriptor_tagged fits c.small
  · exact logged_of_writes txn fun w member => known w (mem_cons_of_mem _ (mem_append_left _ member))
  · have last : checkpointed vol j J now disk txn m (J (j.first + 1 + txn.length)) = commitRecord vol j now :=
      known _ (mem_cons_of_mem _ (mem_append_right _ (mem_singleton_self _)))
    change Headed (checkpointed vol j J now disk txn m (J (j.first + 1 + txn.length))) commitBlock j.seq
    rw [last]
    exact commitRecord_headed vol j now seq
  · intro type listed next
    have small := c.maxlen_lt
    have length : (published j (disk (J 0))).maxlen = j.maxlen := c.super_words.2.1.symm
    have firstWord := c.super_words.2.2.2.1
    have index : (published j (disk (J 0))).next (j.first + 1 + txn.length) =
        if j.maxlen ≤ j.first + 1 + txn.length + 1 then (disk (J 0)).be32 20 else j.first + 1 + txn.length + 1 := by
      rw [JournalSuper.next, length, Nat.mod_eq_of_lt (by omega)]
      rfl
    change Headed (checkpointed vol j J now disk txn m (J ((published j (disk (J 0))).next (j.first + 1 + txn.length)))) type
      ((j.seq + 1) % 2 ^ 32) at next
    rw [index] at next
    split at next
    · split at firstWord
      next zero =>
        -- The log starts at block 0: the journal's superblock is what follows.
        rw [zero, checkpointed_super c] at next
        refine c.quiet 0 c.positive type listed ⟨?_, ?_, ?_⟩
        · exact (jsbSet_other _ 0 (.inl (by decide))).symm.trans next.magic
        · exact (jsbSet_other _ 4 (.inl (by decide))).symm.trans next.type
        · exact (jsbSet_other _ 8 (.inl (by decide))).symm.trans next.seq
      · rw [← firstWord] at next
        have := headed.seq.symm.trans next.seq
        omega
    · rw [checkpointed_journal c (by omega) (by omega), c.log_other (by omega) (.inr (by omega))] at next
      exact c.quiet _ (by omega) type listed next

theorem checkpointed_published : Published vol j J disk txn (checkpointed vol j J now disk txn m) := by
  refine ⟨?_, checkpointed_super c, checkpointed_log c⟩
  exact ((c.log_between between_start).journal c.positive).writes _ fun w member => .inr (mem_of_mem_take member)

theorem crashed_retired (late : txn.length * 2 + 4 ≤ k) :
    Idle vol j J disk txn (crashed vol j now disk txn k) ∧ ∀ b, Outside j J b → crashed vol j now disk txn k b = applyWrites txn disk b := by
  have writes : crashed vol j now disk txn k = update (checkpointed vol j J now disk txn txn.length) (J 0) (retirement j J disk).2 := by
    rw [crashed, c.jtCommit_eq, Device.writeAll_eq]
    change applyWrites (List.take k (logOf vol j J now txn ++ _)) disk = _
    rw [take_of_length_le, applyWrites_append, applyWrites_cons, applyWrites_append, checkpointed, take_length]
    · rfl
    · simp only [length_append, length_cons, length_nil, logOf_length]
      omega
  have super : crashed vol j now disk txn k (J 0) = (retirement j J disk).2 := by
    rw [writes, update_self]
  refine ⟨⟨?_, ?_, ?_⟩, fun b outside => ?_⟩
  · rw [writes]
    exact (checkpointed_published c).held.journal c.positive
  · rw [super, retirement, jsbSet_other _ 0 (.inl (by decide)), jsbSet_other _ 0 (.inl (by decide))]
    exact c.super_words.1
  · rw [super]
    exact (jsbSet_words (by decide) (Nat.mod_lt _ (by decide))).1
  · rw [writes, update_of_ne (outside 0 c.positive).symm, checkpointed_outside c outside, take_length]

theorem crashed_cases (now k : Nat) :
    (Idle vol j J disk txn (crashed vol j now disk txn k) ∧ ((∀ b, Outside j J b → crashed vol j now disk txn k b = disk b) ∨
      ∀ b, Outside j J b → crashed vol j now disk txn k b = applyWrites txn disk b)) ∨
      ∃ m, crashed vol j now disk txn k = checkpointed vol j J now disk txn m := by
  by_cases early : k ≤ txn.length + 2
  · exact .inl ((crashed_logging c early).imp_right .inl)
  · by_cases late : txn.length * 2 + 4 ≤ k
    · exact .inl ((crashed_retired c late).imp_right .inr)
    · have index : k = txn.length + 3 + (k - txn.length - 3) := by omega
      rw [index, crashed_eq_checkpointed c (by omega)]
      exact .inr ⟨_, rfl⟩

end
end SecOS.Ext2
