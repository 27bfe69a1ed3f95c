import SecOS.Proofs.ChainFreeing

/-! The loops of FAT32 that go through the clusters of a file: reading, writing, making room and
shrinking. Each of them ends, since every round moves some bytes or takes a cluster of a chain
that ends. -/

namespace SecOS.Fat32
open Library List

variable {v v' : Volume} {c : Nat}

variable {sectors : List Nat} {inOff : Nat}

theorem readSectors_longer {inOff len : Nat} {out out' : List UInt8}
    (read : readSectors v c inOff len sectors out = some out') : out.length ≤ out'.length := by
  induction sectors generalizing out with
  | nil =>
    cases read
    exact Nat.le_refl _
  | cons s rest ih =>
    rw [readSectors] at read
    split at read
    · cases read
      exact Nat.le_refl _
    split at read
    · exact ih read
    split at read
    · cases read
    · have later := ih read
      rw [length_append] at later
      omega

theorem readSectors_progress {inOff len : Nat} {out out' : List UInt8} (more : out.length < len)
    (past : ∃ s ∈ sectors, inOff < s * secsz + secsz) (read : readSectors v c inOff len sectors out = some out') :
    out.length < out'.length := by
  induction sectors generalizing out with
  | nil =>
    obtain ⟨s, member, _⟩ := past
    cases member
  | cons s rest ih =>
    rw [readSectors, if_neg (by omega)] at read
    split at read
    · obtain ⟨s', member, past⟩ := past
      rcases mem_cons.mp member with rfl | member
      · omega
      · exact ih more ⟨s', member, past⟩ read
    · split at read
      · cases read
      have later := readSectors_longer read
      rw [length_append, Bytes.take, length_map, length_range] at later
      unfold secsz at *
      omega

theorem sector_past {g : Geometry} (inside : inOff < g.clusBytes) :
    ∃ s ∈ List.range g.secPerClus, inOff < s * secsz + secsz := by
  have some := g.clustered
  refine ⟨g.secPerClus - 1, List.mem_range.mpr (by omega), ?_⟩
  have whole : g.clusBytes = (g.secPerClus - 1) * secsz + secsz := by
    unfold Geometry.clusBytes
    rw [← Nat.succ_mul]
    congr 1
    omega
  omega

theorem clusBytes_pos (g : Geometry) : 0 < g.clusBytes := Nat.mul_pos g.clustered (by decide)

theorem read_ends (v : Volume) (nd : Node) (offset len : Nat) : Ends fun fuel => fatReadFile v fuel nd offset len := by
  unfold fatReadFile
  split
  · exact .of_some _
  dsimp only
  generalize (if nd.size < (offset + len) % 2 ^ 64 then nd.size - offset else len) = len
  apply ends_of_measure (fun r : Reading => r.inOff < v.geo.clusBytes) (fun r => len - r.out.length)
  · intro r r' inside round
    unfold readStep at round
    split at round
    next more =>
      split at round
      · cases round
      next out read =>
        cases round
        have longer := readSectors_progress more.1 (sector_past inside) read
        refine ⟨clusBytes_pos _, ?_⟩
        dsimp only
        omega
    · cases round
  · exact Nat.mod_lt _ (clusBytes_pos _)

theorem ensure_loop_ends (need : Nat) (e : Ensuring) : Ends fun fuel => loop (ensureStep need) fuel e := by
  apply ends_of_measure (fun _ => True) (fun e : Ensuring => need - e.count)
  · intro e e' _ round
    refine ⟨trivial, ?_⟩
    unfold ensureStep at round
    split at round
    · split at round
      · cases round
        dsimp only
        omega
      · split at round
        · cases round
        split at round
        · cases round
        · cases round
          dsimp only
          omega
    · cases round
  · trivial

theorem ensure_ends (v : Volume) (first need : Nat) : Ends fun fuel => fatEnsureClusters v fuel first need := by
  unfold fatEnsureClusters
  split
  · exact .of_some _
  split
  · exact (ensure_loop_ends need _).bind fun _ _ => .of_some _
  split
  · exact .of_some _
  · exact (ensure_loop_ends need _).bind fun _ _ => .of_some _

theorem writeSectors_shorter {v' : Volume} {input left : List UInt8}
    (written : writeSectors c inOff sectors v input = (v', some left)) : v'.geo = v.geo ∧ left.length ≤ input.length := by
  induction sectors generalizing v input with
  | nil =>
    cases written
    exact ⟨rfl, le_rfl⟩
  | cons s rest ih =>
    rw [writeSectors] at written
    split at written
    · cases written
      exact ⟨rfl, le_rfl⟩
    split at written
    · exact ih written
    dsimp only at written
    split at written
    · cases written
    split at written
    · cases written
    next v'' stored =>
      obtain ⟨same, less⟩ := ih written
      rw [length_drop] at less
      exact ⟨same.trans (secWrite_same stored).geo, by omega⟩

theorem writeSectors_progress {v' : Volume} {input left : List UInt8} (more : input ≠ [])
    (past : ∃ s ∈ sectors, inOff < s * secsz + secsz) (written : writeSectors c inOff sectors v input = (v', some left)) :
    left.length < input.length := by
  induction sectors with
  | nil =>
    obtain ⟨s, member, _⟩ := past
    cases member
  | cons s rest ih =>
    rw [writeSectors, if_neg more] at written
    split at written
    · obtain ⟨s', member, past⟩ := past
      rcases mem_cons.mp member with rfl | member
      · omega
      · exact ih ⟨s', member, past⟩ written
    · dsimp only at written
      split at written
      · cases written
      split at written
      · cases written
      have less := (writeSectors_shorter written).2
      have some := length_pos_of_ne_nil more
      rw [length_drop] at less
      unfold secsz at *
      omega

theorem write_loop_ends (w : Writing) (inside : w.inOff < w.v.geo.clusBytes) : Ends fun fuel => loop writeStep fuel w := by
  apply ends_of_measure (fun w : Writing => w.inOff < w.v.geo.clusBytes) (fun w => w.input.length)
  · intro w w' inside round
    unfold writeStep at round
    split at round
    next more =>
      split at round
      · cases round
      next v' left written =>
        cases round
        exact ⟨clusBytes_pos _, writeSectors_progress more.1 (sector_past inside) written⟩
    · cases round
  · exact inside

theorem write_ends (now : Clock) (v : Volume) (nd : Node) (offset : Nat) (input : List UInt8) :
    Ends fun fuel => fatWriteFile now v fuel nd offset input := by
  unfold fatWriteFile
  split
  · exact .of_some _
  apply (ensure_ends _ _ _).bind
  rintro ⟨v, first, ok⟩ _
  dsimp only
  split
  · exact .of_some _
  apply (write_loop_ends _ (Nat.mod_lt _ (clusBytes_pos _))).bind
  rintro ⟨v, left⟩ _
  dsimp only
  cases left with
  | none => exact .of_some _
  | some left =>
    dsimp only
    split <;> exact .of_some _

theorem freeFrom_ends (writable : v.ro = false) (c : Nat) : Ends fun fuel => freeFrom fuel v c := by
  unfold freeFrom
  split
  · exact free_ends writable c
  · exact .of_some _

theorem shrink_ends (writable : v.ro = false) (fc need newSize : Nat) : Ends fun fuel => shrinkChain v fuel fc need newSize := by
  unfold shrinkChain
  split
  · exact (freeFrom_ends writable fc).bind fun _ _ => .of_some _
  dsimp only
  apply Ends.bind
  · cases chainNext v (cutAt v (need - 1) fc) with
    | none => exact .of_some _
    | some n => exact free_ends ((fatSet_same v _ _).ro.trans writable) n
  · intro v' _
    split <;> exact .of_some _

theorem resize_ends (writable : v.ro = false) (found : Found) (need newSize : Nat) :
    Ends fun fuel => resizeChain v fuel found need newSize := by
  unfold resizeChain
  split
  · exact shrink_ends writable _ _ _
  · exact ensure_ends v _ _

end SecOS.Fat32
