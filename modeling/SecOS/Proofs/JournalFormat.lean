import SecOS.Ext2.Journal

/-! What the journal's writer puts into its blocks is what recovery reads out of them:
headers, tags in every format, escaped blocks and the journal's superblock. -/

namespace SecOS.Ext2
open Library Bytes

section
variable {b b' : Bytes} {v off i : Nat}

theorem be32_wbe32 (small : v < 2 ^ 32) : (b.wbe32 off v).be32 off = v :=
  (rdBe_wrBe b 4 off v).trans (Nat.mod_eq_of_lt small)

theorem be32_lt (b : Bytes) (off : Nat) : b.be32 off < 2 ^ 32 := rdBe_lt b 4 off

structure Headed (b : Bytes) (type seq : Nat) : Prop where
  magic : b.be32 0 = jbd2Magic
  type : b.be32 4 = type
  seq : b.be32 8 = seq

theorem header_headed {type seq : Nat} (small : type < 2 ^ 32) (numbered : seq < 2 ^ 32) : Headed (header type seq) type seq := by
  refine ⟨?_, ?_, ?_⟩
  · simp only [header, be32, wbe32]
    rw [rdBe_wrBe_apart (by omega), rdBe_wrBe_apart (by omega)]
    exact be32_wbe32 (by decide)
  · simp only [header, be32, wbe32]
    rw [rdBe_wrBe_apart (by omega)]
    exact be32_wbe32 small
  · exact be32_wbe32 numbered

theorem Headed.congr {type seq : Nat} (headed : Headed b type seq) (same : ∀ i, i < 12 → b' i = b i) : Headed b' type seq := by
  refine ⟨?_, ?_, ?_⟩
  · exact (rdBe_congr fun i _ high => same i (by omega)).trans headed.magic
  · exact (rdBe_congr fun i _ high => same i (by omega)).trans headed.type
  · exact (rdBe_congr fun i _ high => same i (by omega)).trans headed.seq

theorem commitRecord_headed (vol : Volume) (j : Journal) (now : Nat) (numbered : j.seq < 2 ^ 32) :
    Headed (commitRecord vol j now) commitBlock j.seq := by
  refine (header_headed (by decide : commitBlock < 2 ^ 32) numbered).congr fun i low => ?_
  have plain : (((header commitBlock j.seq).wbe32 48 (now / 2 ^ 32)).wbe32 52 now) i = header commitBlock j.seq i := by
    simp only [wbe32]
    rw [wrBe_out (by omega), wrBe_out (by omega)]
  unfold commitRecord
  split
  · rw [wbe32, wrBe_out (by omega), plain]
  · exact plain

theorem unescaped_stored {flags : Nat} (data : Bytes) (flag : hasFlag flags flagEscape = escaped data) : unescaped flags (stored data) = data := by
  unfold unescaped stored
  rw [flag]
  cases clash : escaped data with
  | false => rfl
  | true =>
    simp only [if_true]
    have magic : data.be32 0 = jbd2Magic := of_decide_eq_true clash
    funext i
    by_cases low : i < 4
    · have same : (((data.wbe32 0 0).wbe32 0 jbd2Magic).be32 0) = data.be32 0 := (be32_wbe32 (by decide)).trans magic.symm
      exact rdBe_inj same (Nat.zero_le i) (by omega)
    · simp only [wbe32]
      rw [wrBe_out (by omega), wrBe_out (by omega)]

section
variable (leading last : Bool) (data : Bytes)
include leading last data

theorem tagFlags_last : hasFlag (tagFlags leading last data) flagLastTag = last := by
  unfold tagFlags
  cases leading <;> cases last <;> cases escaped data <;> decide

theorem tagFlags_sameUuid : hasFlag (tagFlags leading last data) flagSameUuid = !leading := by
  unfold tagFlags
  cases leading <;> cases last <;> cases escaped data <;> decide

theorem tagFlags_escape : hasFlag (tagFlags leading last data) flagEscape = escaped data := by
  unfold tagFlags
  cases leading <;> cases last <;> cases escaped data <;> decide

theorem tagFlags_lt : tagFlags leading last data < 2 ^ 16 := by
  unfold tagFlags
  cases leading <;> cases last <;> cases escaped data <;> decide

end

structure Tag (j : Journal) (b : Bytes) (off blk flags : Nat) : Prop where
  blk : b.be32 off = blk
  flags : (if j.csum3 then b.be32 (off + 4) else b.be16 (off + 6)) = flags
  high : j.b64 = true → b.be32 (off + 8) = 0

variable {j : Journal} {vol : Volume}

theorem tagSize_pos (csum3 b64 : Bool) : 0 < tagSize csum3 b64 := by
  cases csum3 <;> cases b64 <;> decide

variable {blk flags : Nat} {start seq : Nat}

theorem Tag.congr (tag : Tag j b off blk flags) (same : ∀ i, off ≤ i → i < off + tagSize j.csum3 j.b64 → b' i = b i) :
    Tag j b' off blk flags := by
  unfold tagSize at same
  refine ⟨?_, ?_, fun wide => ?_⟩
  · refine (rdBe_congr fun i low up => same i low ?_).trans tag.blk
    split <;> [omega; split <;> omega]
  · rw [← tag.flags]
    split at same
    next v3 =>
      rw [if_pos v3, if_pos v3]
      exact rdBe_congr fun i low up => same i (by omega) (by omega)
    next v3 =>
      rw [if_neg v3, if_neg v3]
      exact rdBe_congr fun i low up => same i (by omega) (by split <;> omega)
  · rw [if_pos wide] at same
    exact (rdBe_congr fun i low up => same i (by omega) (by split <;> omega)).trans (tag.high wide)

theorem putTag_out {data : Bytes} (out : i < off ∨ off + tagSize j.csum3 j.b64 ≤ i) :
    putTag vol j b off blk flags data i = b i := by
  unfold tagSize at out
  simp only [putTag, wbe32, wbe16]
  split at out
  next v3 =>
    rw [if_pos v3, wrBe_out (by omega), wrBe_out (by omega), wrBe_out (by omega), wrBe_out (by omega)]
  next v3 =>
    rw [if_neg v3]
    split at out
    next wide =>
      rw [if_pos wide, wrBe_out (by omega), wrBe_out (by omega), wrBe_out (by omega), wrBe_out (by omega)]
    next wide =>
      rw [if_neg wide, wrBe_out (by omega), wrBe_out (by omega), wrBe_out (by omega)]

theorem putTag_tag {data : Bytes} (small : blk < 2 ^ 32) (few : flags < 2 ^ 16) :
    Tag j (putTag vol j b off blk flags data) off blk flags := by
  have word : flags < 256 ^ 4 := by omega
  have half : flags < 256 ^ 2 := by omega
  have number : blk < 256 ^ 4 := by omega
  simp only [putTag, wbe32, wbe16]
  cases v3 : j.csum3 with
  | true =>
    simp only [if_true]
    refine ⟨?_, ?_, fun _ => ?_⟩
    · rw [be32, rdBe_wrBe_apart (by omega), rdBe_wrBe_apart (by omega), rdBe_wrBe_apart (by omega), rdBe_wrBe,
        Nat.mod_eq_of_lt number]
    · rw [v3, if_pos rfl, be32, rdBe_wrBe_apart (by omega), rdBe_wrBe_apart (by omega), rdBe_wrBe,
        Nat.mod_eq_of_lt word]
    · rw [be32, rdBe_wrBe_apart (by omega), rdBe_wrBe, Nat.zero_mod]
  | false =>
    simp only [Bool.false_eq_true, if_false]
    cases wide : j.b64 with
    | true =>
      simp only [if_true]
      refine ⟨?_, ?_, fun _ => ?_⟩
      · rw [be32, rdBe_wrBe_apart (by omega), rdBe_wrBe_apart (by omega), rdBe_wrBe_apart (by omega), rdBe_wrBe,
          Nat.mod_eq_of_lt number]
      · rw [v3, if_neg Bool.false_ne_true, be16, rdBe_wrBe_apart (by omega), rdBe_wrBe, Nat.mod_eq_of_lt half]
      · rw [be32, rdBe_wrBe, Nat.zero_mod]
    | false =>
      simp only [Bool.false_eq_true, if_false]
      refine ⟨?_, ?_, fun on => nomatch wide.symm.trans on⟩
      · rw [be32, rdBe_wrBe_apart (by omega), rdBe_wrBe_apart (by omega), rdBe_wrBe, Nat.mod_eq_of_lt number]
      · rw [v3, if_neg Bool.false_ne_true, be16, rdBe_wrBe, Nat.mod_eq_of_lt half]

def Tagged (j : Journal) (b : Bytes) : Bool → List (Nat × Bytes) → Nat → Prop
  | _, [], _ => True
  | leading, (blk, data) :: rest, off =>
    Tag j b off blk (tagFlags leading rest.isEmpty data) ∧
      Tagged j b false rest (off + tagSize j.csum3 j.b64 + if leading then 16 else 0)

theorem putTags_below (txn : List (Nat × Bytes)) : ∀ {leading : Bool} {off : Nat} {b : Bytes}, i < off →
    putTags vol j leading txn off b i = b i := by
  induction txn with
  | nil => exact fun _ => rfl
  | cons w rest ih =>
    intro leading off b low
    rw [putTags]
    split
    · rw [ih (by omega), copy_out (by omega), putTag_out (.inl low)]
    · rw [ih (by omega), putTag_out (.inl low)]

theorem putTags_tagged (txn : List (Nat × Bytes)) : ∀ {leading : Bool} {off limit : Nat} {b b' : Bytes},
    off + (if leading then 16 else 0) + txn.length * tagSize j.csum3 j.b64 ≤ limit → (∀ w ∈ txn, w.1 < 2 ^ 32) →
    (∀ i < limit, b' i = putTags vol j leading txn off b i) → Tagged j b' leading txn off := by
  induction txn with
  | nil => exact fun _ _ _ => trivial
  | cons w rest ih =>
    intro leading off limit b b' fits small same
    obtain ⟨blk, data⟩ := w
    rw [List.length_cons, Nat.succ_mul] at fits
    rw [putTags] at same
    have tag : Tag j (putTag vol j b off blk (tagFlags leading rest.isEmpty data) data) off blk (tagFlags leading rest.isEmpty data) :=
      putTag_tag (small _ List.mem_cons_self) (tagFlags_lt ..)
    have others : ∀ w ∈ rest, w.1 < 2 ^ 32 := fun w member => small w (List.mem_cons_of_mem _ member)
    cases leading with
    | true =>
      rw [if_pos rfl] at same fits
      refine ⟨tag.congr fun i low up => ?_, ih (by rw [if_pos rfl, if_neg Bool.false_ne_true]; omega) others same⟩
      rw [same i (by omega), putTags_below rest (by omega), copy_out (by omega)]
    | false =>
      rw [if_neg Bool.false_ne_true] at same fits
      refine ⟨tag.congr fun i low up => ?_, ih (by rw [if_neg Bool.false_ne_true]; omega) others same⟩
      rw [same i (by omega), putTags_below rest (by omega)]

/-- The bytes of a descriptor block that its checksum leaves alone. -/
def tagLimit (vol : Volume) (j : Journal) : Nat := vol.blkSize - if j.csum3 then 4 else 0

theorem descriptor_below (txn : List (Nat × Bytes)) (low : i < tagLimit vol j) :
    descriptor vol j txn i = putTags vol j true txn 12 (header descriptorBlock j.seq) i := by
  unfold tagLimit at low
  unfold descriptor
  split
  next v3 =>
    rw [if_pos v3] at low
    exact wrBe_out (.inl low)
  · rfl

theorem descriptor_headed {txn : List (Nat × Bytes)} (wide : 12 ≤ tagLimit vol j) (numbered : j.seq < 2 ^ 32) :
    Headed (descriptor vol j txn) descriptorBlock j.seq := by
  refine (header_headed (by decide : descriptorBlock < 2 ^ 32) numbered).congr fun i low => ?_
  rw [descriptor_below txn (by omega), putTags_below txn low]

theorem descriptor_tagged {txn : List (Nat × Bytes)} (fits : 28 + txn.length * tagSize j.csum3 j.b64 ≤ tagLimit vol j)
    (small : ∀ w ∈ txn, w.1 < 2 ^ 32) : Tagged j (descriptor vol j txn) true txn 12 :=
  putTags_tagged txn fits small fun _ low => descriptor_below txn low

theorem jsbSet_other (b : Bytes) (off : Nat) (apart : off + 4 ≤ 24 ∨ 32 ≤ off ∧ off + 4 ≤ 0xFC) : (jsbSet b start seq).be32 off = b.be32 off := by
  have plain : ((b.wbe32 28 start).wbe32 24 seq).be32 off = b.be32 off := by
    simp only [be32, wbe32]
    rw [rdBe_wrBe_apart (by omega), rdBe_wrBe_apart (by omega)]
  simp only [jsbSet, jsbFinalizeCsum]
  split
  · refine Eq.trans ?_ plain
    simp only [be32, wbe32]
    rw [rdBe_wrBe_apart (by omega), rdBe_wrBe_apart (by omega)]
  · exact plain

theorem jsbSet_words (small : start < 2 ^ 32) (numbered : seq < 2 ^ 32) :
    (jsbSet b start seq).be32 28 = start ∧ (jsbSet b start seq).be32 24 = seq := by
  have first : ((b.wbe32 28 start).wbe32 24 seq).be32 28 = start := by
    simp only [be32, wbe32]
    rw [rdBe_wrBe_apart (by omega)]
    exact be32_wbe32 small
  have second : ((b.wbe32 28 start).wbe32 24 seq).be32 24 = seq := be32_wbe32 numbered
  simp only [jsbSet, jsbFinalizeCsum]
  split
  · refine ⟨Eq.trans ?_ first, Eq.trans ?_ second⟩
    · simp only [be32, wbe32]
      rw [rdBe_wrBe_apart (by omega), rdBe_wrBe_apart (by omega)]
    · simp only [be32, wbe32]
      rw [rdBe_wrBe_apart (by omega), rdBe_wrBe_apart (by omega)]
  · exact ⟨first, second⟩

theorem read_jsbSet (small : start < 2 ^ 32) (numbered : seq < 2 ^ 32) :
    JournalSuper.read (jsbSet b start seq) = { JournalSuper.read b with start := start, seq := seq } := by
  obtain ⟨first, second⟩ := jsbSet_words (b := b) small numbered
  simp only [JournalSuper.read, first, second, jsbSet_other b 20 (.inl (by decide)), jsbSet_other b 16 (.inl (by decide)),
    jsbSet_other b 40 (.inr (by decide))]

end
end SecOS.Ext2
