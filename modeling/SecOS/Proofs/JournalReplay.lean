import SecOS.Proofs.JournalFormat

/-! The passes of recovery over one transaction that `jt_commit` has written to the log:
each sees one committed transaction, and the last one writes its blocks back in order. -/

namespace SecOS.Ext2
open Library List

/-- The stored blocks of a transaction, from journal block `lb` on; `J` is the journal's block map. -/
def Logged (J : Nat → Nat) (d : Disk) : Nat → List (Nat × Bytes) → Prop
  | _, [] => True
  | lb, w :: rest => d (J lb) = stored w.2 ∧ Logged J d (lb + 1) rest

section
variable {vol : Volume} {jin : Bytes} {J : Nat → Nat} {P : Disk → Prop} {js : JournalSuper} {j : Journal} {d : Disk} {lb limit : Nat}
  {txn : List (Nat × Bytes)}

theorem Logged.congr {d' : Disk} (txn : List (Nat × Bytes)) : ∀ {lb : Nat}, Logged J d lb txn →
    (∀ k, lb ≤ k → k < lb + txn.length → d' (J k) = d (J k)) → Logged J d' lb txn := by
  induction txn with
  | nil => exact fun _ _ => trivial
  | cons w rest ih =>
    intro lb logged same
    rw [length_cons] at same
    exact ⟨(same lb le_rfl (by omega)).trans logged.1, ih logged.2 fun k low up => same k (by omega) (by omega)⟩

/-- The journal's map does not depend on which of the disks in `P` it is read from. -/
def MapOn (vol : Volume) (jin : Bytes) (J : Nat → Nat) (P : Disk → Prop) : Prop := ∀ d, P d → ∀ lb, bmapRead vol d jin lb = J lb

theorem MapOn.jread (map : MapOn vol jin J P) (held : P d) (mapped : J lb ≠ 0) : jread vol d jin lb = some (d (J lb)) := by
  rw [Ext2.jread, map d held]
  exact if_neg mapped

/-- The blocks of a transaction lie outside the journal and writing them stays in `P`. -/
structure Targets (J : Nat → Nat) (limit : Nat) (P : Disk → Prop) (txn : List (Nat × Bytes)) : Prop where
  small : ∀ w ∈ txn, w.1 < 2 ^ 32
  outside : ∀ w ∈ txn, ∀ lb < limit, J lb ≠ w.1
  closed : ∀ d, P d → ∀ w ∈ txn, P (Function.update d w.1 w.2)

variable {w : Nat × Bytes} {phase : Phase} {r : Recovery}

theorem Targets.tail (targets : Targets J limit P (w :: txn)) : Targets J limit P txn :=
  ⟨fun v member => targets.small v (mem_cons_of_mem _ member), fun v member => targets.outside v (mem_cons_of_mem _ member),
    fun d held v member => targets.closed d held v (mem_cons_of_mem _ member)⟩

/-- Recovery reads the tags in the format they were written in. -/
def SameFormat (js : JournalSuper) (j : Journal) : Prop := js.csum3 = j.csum3 ∧ js.b64 = j.b64

theorem next_eq (inside : lb + 1 < js.maxlen) (small : js.maxlen ≤ 2 ^ 32) : js.next lb = lb + 1 := by
  unfold JournalSuper.next
  rw [Nat.mod_eq_of_lt (by omega), if_neg (by omega)]

def replayed (phase : Phase) (txn : List (Nat × Bytes)) (r : Recovery) : Recovery :=
  if phase = .replay then { r with dev := r.dev.writeAll txn } else r

theorem replayed_cons (phase : Phase) (w : Nat × Bytes) (rest : List (Nat × Bytes)) (r : Recovery) :
    replayed phase (w :: rest) r = replayed phase rest (replayed phase [w] r) := by
  unfold replayed
  split <;> rfl

theorem replayed_revoked (phase : Phase) (txn : List (Nat × Bytes)) (r : Recovery) : (replayed phase txn r).revoked = r.revoked := by
  unfold replayed
  split <;> rfl

theorem replayed_held (targets : Targets J limit P (w :: txn)) (held : P r.dev.disk) :
    P (replayed phase [w] r).dev.disk := by
  unfold replayed
  split
  · exact targets.closed _ held w mem_cons_self
  · exact held

theorem replayed_other {b : Nat} (other : b ≠ w.1) :
    (replayed phase [w] r).dev.disk b = r.dev.disk b := by
  unfold replayed
  split
  · exact Function.update_of_ne other _ _
  · rfl

theorem replayBlock_eq {data : Bytes} {tgt flags seq : Nat} (map : MapOn vol jin J P) (held : P r.dev.disk) (mapped : J lb ≠ 0)
    (found : r.dev.disk (J lb) = stored data) (none : r.revoked = []) (small : tgt < 2 ^ 32) (flag : hasFlag flags flagEscape = escaped data) :
    replayBlock vol jin r lb tgt flags seq = { r with dev := r.dev.write tgt data } := by
  rw [replayBlock, map.jread held mapped, found]
  simp only [none, jrevTest, any_nil, Bool.false_eq_true, if_false, unescaped_stored data flag, Nat.mod_eq_of_lt small]

theorem passTags_written {desc : Bytes} {seq : Nat} (map : MapOn vol jin J P) (format : SameFormat js j)
    (bound : js.maxlen ≤ 2 ^ 32) (mapped : ∀ lb < js.maxlen, J lb ≠ 0) (txn : List (Nat × Bytes)) :
    ∀ {leading : Bool} {off lb : Nat} {r : Recovery}, txn ≠ [] → Targets J js.maxlen P txn → Tagged j desc leading txn off →
      off + (if leading then 16 else 0) + txn.length * tagSize j.csum3 j.b64 ≤ vol.blkSize → lb + txn.length < js.maxlen →
      P r.dev.disk → r.revoked = [] → Logged J r.dev.disk lb txn →
      passTags vol jin js phase desc seq off lb r = (lb + txn.length, replayed phase txn r) := by
  induction txn with
  | nil => exact fun filled => absurd rfl filled
  | cons w rest ih =>
    intro leading off lb r _ targets tagged fits room held unrevoked logged
    obtain ⟨blk, data⟩ := w
    obtain ⟨tag, tags⟩ := tagged
    rw [length_cons] at room
    rw [length_cons, Nat.succ_mul] at fits
    have flags : (if js.csum3 then desc.be32 (off + 4) else desc.be16 (off + 6)) = tagFlags leading rest.isEmpty data := by
      rw [format.1]
      exact tag.flags
    have target : ((if js.b64 then desc.be32 (off + 8) * 2 ^ 32 else 0) ||| desc.be32 off) = blk := by
      rw [format.2, tag.blk]
      cases wide : j.b64 with
      | true => rw [if_pos rfl, tag.high wide, Nat.zero_mul, Nat.zero_or]
      | false => rw [if_neg Bool.false_ne_true, Nat.zero_or]
    have block : (if phase = .replay then replayBlock vol jin r lb blk (tagFlags leading rest.isEmpty data) seq else r) =
        replayed phase [(blk, data)] r := by
      unfold replayed
      split
      · exact replayBlock_eq map held (mapped lb (by omega)) logged.1 unrevoked (targets.small _ mem_cons_self) (tagFlags_escape ..)
      · rfl
    have follows : js.next lb = lb + 1 := next_eq (by omega) bound
    rw [passTags, if_neg (by rw [format.1, format.2]; omega)]
    simp only [flags, target, block, tagFlags_last, tagFlags_sameUuid, follows]
    cases rest with
    | nil => rfl
    | cons v rest =>
      rw [if_neg (by simp)]
      have widths : off + tagSize js.csum3 js.b64 + (if (!leading) = true then 0 else 16) =
          off + tagSize j.csum3 j.b64 + if leading then 16 else 0 := by
        rw [format.1, format.2]
        cases leading <;> rfl
      have total : lb + ((blk, data) :: v :: rest).length = lb + 1 + (v :: rest).length := by
        rw [length_cons]
        omega
      rw [widths, replayed_cons phase (blk, data) (v :: rest), total]
      refine ih (by simp) targets.tail tags ?_ ?_ (replayed_held targets held) ((replayed_revoked ..).trans unrevoked) ?_
      · rw [if_neg Bool.false_ne_true]
        omega
      · omega
      · refine Logged.congr _ logged.2 fun k low up => replayed_other ?_
        exact targets.outside _ mem_cons_self k (by omega)

/-- The log of one transaction: descriptor, data and commit blocks, and nothing that goes on with the next number. -/
structure LogOf (vol : Volume) (j : Journal) (js : JournalSuper) (J : Nat → Nat) (txn : List (Nat × Bytes)) (d : Disk) : Prop where
  described : Headed (d (J js.start)) descriptorBlock js.seq
  tagged : Tagged j (d (J js.start)) true txn 12
  logged : Logged J d (js.start + 1) txn
  committed : Headed (d (J (js.start + 1 + txn.length))) commitBlock js.seq
  ends : ∀ type ∈ [descriptorBlock, commitBlock, revokeBlock],
    ¬Headed (d (J (js.next (js.start + 1 + txn.length)))) type ((js.seq + 1) % 2 ^ 32)

theorem LogOf.congr {d' : Disk} (log : LogOf vol j js J txn d) (room : js.start + 1 + txn.length < js.maxlen) (first : js.first < js.maxlen)
    (same : ∀ lb < js.maxlen, d' (J lb) = d (J lb)) : LogOf vol j js J txn d' := by
  have next : js.next (js.start + 1 + txn.length) < js.maxlen := by
    unfold JournalSuper.next
    split <;> omega
  refine ⟨?_, ?_, log.logged.congr txn fun k _ up => same k (by omega), ?_, ?_⟩
  · rw [same _ (by omega)]
    exact log.described
  · rw [same _ (by omega)]
    exact log.tagged
  · rw [same _ room]
    exact log.committed
  · rw [same _ next]
    exact log.ends

structure Readable (vol : Volume) (jin : Bytes) (j : Journal) (js : JournalSuper) (J : Nat → Nat) (P : Disk → Prop)
    (txn : List (Nat × Bytes)) : Prop where
  map : MapOn vol jin J P
  format : SameFormat js j
  bound : js.maxlen ≤ 2 ^ 32
  mapped : ∀ lb < js.maxlen, J lb ≠ 0
  filled : txn ≠ []
  targets : Targets J js.maxlen P txn
  fits : 28 + txn.length * tagSize j.csum3 j.b64 ≤ vol.blkSize
  room : js.start + 1 + txn.length < js.maxlen

variable {phase : Phase} {r : Recovery} {rounds endSeq : Nat}

theorem pass_descriptor (readable : Readable vol jin j js J P txn) (held : P r.dev.disk) (unrevoked : r.revoked = [])
    (log : LogOf vol j js J txn r.dev.disk) (goes : phase = .scan ∨ js.seq < endSeq) :
    jbd2Pass vol jin js phase endSeq (rounds + 1) js.start js.seq 0 r =
      jbd2Pass vol jin js phase endSeq rounds (js.start + 1 + txn.length) js.seq 0 (replayed phase txn r) := by
  have room := readable.room
  rw [jbd2Pass, if_neg, readable.map.jread held (readable.mapped _ (by omega))]
  · simp only [log.described.magic, log.described.seq, log.described.type, ne_eq, not_true_eq_false, or_self, if_false, if_true]
    rw [next_eq (by omega) readable.bound, passTags_written readable.map readable.format readable.bound readable.mapped txn readable.filled
      readable.targets log.tagged readable.fits readable.room held unrevoked log.logged]
  · rintro ⟨other, past⟩
    rcases goes with scan | before
    · exact other scan
    · omega

theorem pass_commit (readable : Readable vol jin j js J P txn) (held : P r.dev.disk)
    (committed : Headed (r.dev.disk (J (js.start + 1 + txn.length))) commitBlock js.seq) (goes : phase = .scan ∨ js.seq < endSeq) :
    jbd2Pass vol jin js phase endSeq (rounds + 1) (js.start + 1 + txn.length) js.seq 0 r =
      jbd2Pass vol jin js phase endSeq rounds (js.next (js.start + 1 + txn.length)) ((js.seq + 1) % 2 ^ 32) 1 r := by
  rw [jbd2Pass, if_neg, readable.map.jread held (readable.mapped _ readable.room)]
  · simp only [committed.magic, committed.seq, committed.type, ne_eq, not_true_eq_false, or_self, if_false, if_true]
    rw [if_neg (by decide)]
  · rintro ⟨other, past⟩
    rcases goes with scan | before
    · exact other scan
    · omega

theorem pass_ends {seq committed : Nat} (map : MapOn vol jin J P) (held : P r.dev.disk)
    (ends : ∀ type ∈ [descriptorBlock, commitBlock, revokeBlock], ¬Headed (r.dev.disk (J lb)) type seq) :
    jbd2Pass vol jin js .scan endSeq (rounds + 1) lb seq committed r = some (committed, r) := by
  rw [jbd2Pass, if_neg (fun both => both.1 rfl)]
  by_cases mapped : J lb = 0
  · rw [jread, map _ held, if_pos mapped]
  · rw [map.jread held mapped]
    simp only
    split
    · rfl
    next headed =>
      rw [not_or, not_not, not_not] at headed
      rw [if_neg, if_neg, if_neg]
      · exact fun type => ends revokeBlock (by simp) ⟨headed.1, type, headed.2⟩
      · exact fun type => ends commitBlock (by simp) ⟨headed.1, type, headed.2⟩
      · exact fun type => ends descriptorBlock (by simp) ⟨headed.1, type, headed.2⟩

theorem pass_scan (readable : Readable vol jin j js J P txn) (held : P r.dev.disk) (unrevoked : r.revoked = [])
    (log : LogOf vol j js J txn r.dev.disk) : jbd2Pass vol jin js .scan endSeq (rounds + 3) js.start js.seq 0 r = some (1, r) := by
  rw [pass_descriptor readable held unrevoked log (.inl rfl)]
  change jbd2Pass vol jin js .scan endSeq (rounds + 2) _ _ _ r = _
  rw [pass_commit readable held log.committed (.inl rfl), pass_ends readable.map held log.ends]

theorem Targets.held (targets : Targets J limit P txn) (held : P d) : P (applyWrites txn d) := by
  induction txn generalizing d with
  | nil => exact held
  | cons w rest ih => exact ih targets.tail (targets.closed d held w mem_cons_self)

theorem Targets.journal (targets : Targets J limit P txn) (inside : lb < limit) : applyWrites txn d (J lb) = d (J lb) :=
  applyWrites_other fun w member => (targets.outside w member lb inside).symm

theorem replayed_disk (phase : Phase) (txn : List (Nat × Bytes)) (r : Recovery) :
    (replayed phase txn r).dev.disk = if phase = .replay then applyWrites txn r.dev.disk else r.dev.disk := by
  unfold replayed
  split
  · simp only
    rw [Device.writeAll_eq]
  · rfl

/-- A later pass goes over the transaction as long as its number is below the end. -/
theorem pass_over (readable : Readable vol jin j js J P txn) (held : P r.dev.disk) (unrevoked : r.revoked = [])
    (log : LogOf vol j js J txn r.dev.disk) (later : phase ≠ .scan) (below : js.seq + 1 < 2 ^ 32) :
    jbd2Pass vol jin js phase (js.seq + 1) (rounds + 3) js.start js.seq 0 r = some (1, replayed phase txn r) := by
  have after : P (replayed phase txn r).dev.disk := by
    rw [replayed_disk]
    split
    · exact readable.targets.held held
    · exact held
  have committed : Headed ((replayed phase txn r).dev.disk (J (js.start + 1 + txn.length))) commitBlock js.seq := by
    rw [replayed_disk]
    split
    · rw [readable.targets.journal readable.room]; exact log.committed
    · exact log.committed
  rw [pass_descriptor readable held unrevoked log (.inr (Nat.lt_succ_self _)), pass_commit readable after committed (.inr (Nat.lt_succ_self _)),
    Nat.mod_eq_of_lt below, jbd2Pass, if_pos ⟨later, le_rfl⟩]

theorem pass_skips (later : phase ≠ .scan) (past : endSeq ≤ js.seq) :
    jbd2Pass vol jin js phase endSeq (rounds + 1) js.start js.seq 0 r = some (0, r) := by
  rw [jbd2Pass, if_pos ⟨later, past⟩]

/-- The blocks that recovery writes back: none once the number after the transaction's wraps to 0. -/
def written (js : JournalSuper) (txn : List (Nat × Bytes)) : List (Nat × Bytes) := if js.seq + 1 < 2 ^ 32 then txn else []

/-- A volume that `jbd2_recover` gets as far as the journal's superblock on. -/
structure Opened (vol : Volume) (jin : Bytes) (js : JournalSuper) (J : Nat → Nat) (d : Disk) : Prop where
  inum : journalInum vol d ≠ 0
  inode : inodeRead vol d (journalInum vol d) = some jin
  magic : (d (J 0)).be32 0 = jbd2Magic
  super : JournalSuper.read (d (J 0)) = js

theorem recover_idle (map : MapOn vol jin J P) (held : P d) (mapped : J 0 ≠ 0) (opened : Opened vol jin js J d) (idle : js.start = 0) :
    jbd2Recover vol rounds d = .ok (clearRecover vol (.fresh d)) := by
  rw [jbd2Recover, if_neg opened.inum, opened.inode]
  simp [map.jread held mapped, opened.magic, opened.super, idle]

theorem recover_published (readable : Readable vol jin j js J P txn) (held : P d) (opened : Opened vol jin js J d) (busy : js.start ≠ 0)
    (log : LogOf vol j js J txn d) (numbered : js.seq < 2 ^ 32) :
    jbd2Recover vol (rounds + 3) d =
      .ok (clearRecover vol (((Device.fresh d).writeAll (written js txn)).write (J 0) (jsbSet (d (J 0)) 0 ((js.seq + 1) % 2 ^ 32)))) := by
  have room := readable.room
  have zero : J 0 ≠ 0 := readable.mapped 0 (by omega)
  rw [jbd2Recover, if_neg opened.inum, opened.inode]
  simp only [readable.map.jread held zero, opened.magic, opened.super, busy, ne_eq, not_true_eq_false, if_false]
  have scanned : jbd2Pass vol jin js .scan 0 (rounds + 3) js.start js.seq 0 ⟨.fresh d, []⟩ = some (1, ⟨.fresh d, []⟩) :=
    pass_scan readable held rfl log
  rw [scanned]
  simp only [Option.bind_eq_bind, Option.bind_some]
  unfold written
  by_cases below : js.seq + 1 < 2 ^ 32
  · have seen : jbd2Pass vol jin js .revoke (js.seq + 1) (rounds + 3) js.start js.seq 0 ⟨.fresh d, []⟩ = some (1, ⟨.fresh d, []⟩) :=
      pass_over readable held rfl log (by decide) below
    have replayed : jbd2Pass vol jin js .replay (js.seq + 1) (rounds + 3) js.start js.seq 0 ⟨.fresh d, []⟩ =
        some (1, ⟨(Device.fresh d).writeAll txn, []⟩) := pass_over readable held rfl log (by decide) below
    have disk : ((Device.fresh d).writeAll txn).disk = applyWrites txn d := congrArg Device.disk (Device.writeAll_eq ..)
    have kept : P ((Device.fresh d).writeAll txn).disk := disk ▸ readable.targets.held held
    rw [Nat.mod_eq_of_lt below, seen, Option.bind_some, replayed, Option.bind_some, if_pos below]
    simp only [readable.map.jread kept zero, readable.map _ kept, zero, if_false]
    rw [disk, readable.targets.journal (by omega)]
  · have wraps : (js.seq + 1) % 2 ^ 32 = 0 := by omega
    rw [wraps, pass_skips (by decide) (Nat.zero_le _), Option.bind_some, pass_skips (by decide) (Nat.zero_le _), Option.bind_some, if_neg below]
    simp only [Device.fresh, readable.map.jread held zero, readable.map _ held, zero, if_false]
    rfl

end
end SecOS.Ext2
