import SecOS.Pkg

/-! When installing a package reads only the package and changes all or nothing. The bounds
are sums that wrap, and an entry is tested only when the entries before it have been
unpacked. -/

namespace SecOS.Pkg
open Library

def Inside (len : Nat) (reads : List (Nat × Nat)) : Prop := ∀ r ∈ reads, r.2 = 0 ∨ r.1 + r.2 ≤ len

theorem inside_cons {len : Nat} {r : Nat × Nat} {reads : List (Nat × Nat)} :
    Inside len (r :: reads) ↔ (r.2 = 0 ∨ r.1 + r.2 ≤ len) ∧ Inside len reads := List.forall_mem_cons

theorem inside_one {len : Nat} {r : Nat × Nat} (fits : r.1 + r.2 ≤ len) : Inside len [r] :=
  inside_cons.mpr ⟨.inr fits, fun _ member => nomatch member⟩

theorem inside_append {len : Nat} {first later : List (Nat × Nat)} :
    Inside len (first ++ later) ↔ Inside len first ∧ Inside len later := List.forall_mem_append

def Bad (b : Bytes) (sigOff i : Nat) : Prop :=
  (ent b i).type ≠ 1 ∧ sigOff < ((ent b i).dataOffset + (ent b i).dataSize) % 2 ^ 64

def Straight (b : Bytes) (i : Nat) : Prop :=
  (ent b i).type = 1 ∨ (ent b i).dataSize = 0 ∨ (ent b i).dataOffset + (ent b i).dataSize < 2 ^ 64

section
variable {σ : Type*} {fs : Vfs σ} {b : Bytes} {sigOff len i : Nat}

def Unpacked (b : Bytes) (sigOff i left j : Nat) : Prop := i ≤ j ∧ j < i + left ∧ ∀ k, i ≤ k → k ≤ j → ¬Bad b sigOff k

theorem unpacked_good {left j : Nat} (good : ¬Bad b sigOff i) :
    Unpacked b sigOff i (left + 1) j ↔ j = i ∨ Unpacked b sigOff (i + 1) left j := by
  constructor
  · rintro ⟨low, high, fine⟩
    by_cases here : j = i
    · exact .inl here
    · exact .inr ⟨by omega, by omega, fun k above below => fine k (by omega) below⟩
  · rintro (rfl | ⟨low, high, fine⟩)
    · refine ⟨le_rfl, by omega, fun k above below => ?_⟩
      rw [Nat.le_antisymm below above]
      exact good
    · refine ⟨by omega, by omega, fun k above below => ?_⟩
      by_cases here : k = i
      · rw [here]
        exact good
      · exact fine k (by omega) below

theorem unpack_inside (small : len < 2 ^ 64) (sig : sigOff ≤ len) (left i done : Nat) (v : σ)
    (table : sizeofHdr + (i + left) * sizeofEnt ≤ sigOff) :
    Inside len (unpack fs b sigOff left i done v).reads ↔ ∀ j, Unpacked b sigOff i left j → Straight b j := by
  induction left generalizing i done v with
  | zero => exact ⟨fun _ j unpacked => absurd unpacked.2.1 (Nat.not_lt_of_le unpacked.1), fun _ => fun _ member => nomatch member⟩
  | succ left ih =>
    have here : sizeofHdr + i * sizeofEnt + sizeofEnt ≤ len := by
      unfold sizeofHdr sizeofEnt at *
      omega
    have rest : sizeofHdr + (i + 1 + left) * sizeofEnt ≤ sigOff := by
      rw [Nat.add_right_comm i 1 left]
      exact table
    have split : ¬Bad b sigOff i → ((∀ j, Unpacked b sigOff i (left + 1) j → Straight b j) ↔
        Straight b i ∧ ∀ j, Unpacked b sigOff (i + 1) left j → Straight b j) := by
      intro good
      refine ⟨fun all => ⟨all i ((unpacked_good good).mpr (.inl rfl)), fun j later => all j ((unpacked_good good).mpr (.inr later))⟩, ?_⟩
      rintro ⟨first, later⟩ j unpacked
      rcases (unpacked_good good).mp unpacked with rfl | behind
      · exact first
      · exact later j behind
    unfold unpack
    dsimp only
    by_cases directory : (ent b i).type = 1
    · rw [if_pos directory, split fun bad => bad.1 directory]
      change Inside len ([_] ++ _) ↔ _
      rw [inside_append, inside_cons, ih (i + 1) _ _ rest]
      exact and_congr_left fun _ => ⟨fun _ => .inl directory, fun _ => ⟨.inr here, fun _ member => nomatch member⟩⟩
    · rw [if_neg directory]
      by_cases excess : sigOff < ((ent b i).dataOffset + (ent b i).dataSize) % 2 ^ 64
      · rw [if_pos excess]
        refine ⟨fun _ j unpacked => absurd ⟨directory, excess⟩ (unpacked.2.2 i le_rfl unpacked.1), fun _ => ?_⟩
        exact inside_one here
      · rw [if_neg excess, split fun bad => excess bad.2]
        change Inside len ([_, _] ++ _) ↔ _
        rw [inside_append, inside_cons, inside_cons, ih (i + 1) _ _ rest]
        unfold Straight
        constructor
        · rintro ⟨⟨-, data, -⟩, later⟩
          refine ⟨.inr (data.imp id fun inside => ?_), later⟩
          exact Nat.lt_of_le_of_lt inside small
        · rintro ⟨first, later⟩
          refine ⟨⟨.inr here, ?_, fun _ member => nomatch member⟩, later⟩
          rcases first with is | empty | straight
          · exact absurd is directory
          · exact .inl empty
          · rw [Nat.mod_eq_of_lt straight] at excess
            exact .inr (by omega)

/-- `vfs_create` and `vfs_mkdir` succeed, and each of them adds something that no later one takes away. -/
structure Growing (fs : Vfs σ) (size : σ → Nat) : Prop where
  creates : ∀ path data v, (fs.create path data v).2 = true
  create : ∀ path data v, size v < size (fs.create path data v).1
  mkdir : ∀ path v, size v < size (fs.mkdir path v)

variable {size : σ → Nat}

theorem unpack_good (growing : Growing fs size) (good : ¬Bad b sigOff i) (v : σ) : ∃ v', size v < size v' ∧ ∀ left done,
    (unpack fs b sigOff (left + 1) i done v).result = (unpack fs b sigOff left (i + 1) (done + 1) v').result ∧
      (unpack fs b sigOff (left + 1) i done v).vfs = (unpack fs b sigOff left (i + 1) (done + 1) v').vfs := by
  by_cases directory : (ent b i).type = 1
  · refine ⟨fs.mkdir (ent b i).path v, growing.mkdir .., fun left done => ?_⟩
    rw [unpack]
    dsimp only
    rw [if_pos directory]
    exact ⟨rfl, rfl⟩
  · refine ⟨(fs.create (ent b i).path (slice b (ent b i).dataOffset (ent b i).dataSize) v).1, growing.create .., fun left done => ?_⟩
    rw [unpack]
    dsimp only
    rw [if_neg directory, if_neg fun excess => good ⟨directory, excess⟩, growing.creates, if_pos rfl]
    exact ⟨rfl, rfl⟩

theorem unpack_all (growing : Growing fs size) (left i done : Nat) (v : σ) (good : ∀ j, i ≤ j → j < i + left → ¬Bad b sigOff j) :
    (unpack fs b sigOff left i done v).result = some (done + left) ∧ size v + left ≤ size (unpack fs b sigOff left i done v).vfs := by
  induction left generalizing i done v with
  | zero => exact ⟨rfl, le_rfl⟩
  | succ left ih =>
    obtain ⟨v', grown, next⟩ := unpack_good growing (good i le_rfl (by omega)) v
    obtain ⟨result, later⟩ := ih (i + 1) (done + 1) v' fun j low high => good j (by omega) (by omega)
    rw [(next left done).1, (next left done).2, result]
    exact ⟨congrArg some (by omega), by omega⟩

theorem unpack_bad (growing : Growing fs size) (m left i done : Nat) (v : σ) (good : ∀ j, i ≤ j → j < i + m → ¬Bad b sigOff j)
    (bad : Bad b sigOff (i + m)) :
    (unpack fs b sigOff (m + (left + 1)) i done v).result = none ∧
      (unpack fs b sigOff (m + (left + 1)) i done v).vfs = (unpack fs b sigOff m i done v).vfs := by
  induction m generalizing i done v with
  | zero =>
    rw [Nat.add_zero] at bad
    rw [Nat.zero_add]
    unfold unpack
    dsimp only
    rw [if_neg bad.1, if_pos bad.2]
    exact ⟨rfl, rfl⟩
  | succ m ih =>
    obtain ⟨v', _, next⟩ := unpack_good growing (good i le_rfl (by omega)) v
    obtain ⟨result, vfs⟩ := ih (i + 1) (done + 1) v' (fun j low high => good j (by omega) (by omega))
      (by rw [Nat.add_right_comm i 1 m]; exact bad)
    rw [Nat.add_right_comm m 1 (left + 1), (next _ _).1, (next _ _).2, (next m _).2]
    exact ⟨result, vfs⟩

/-- No entry is bad, and their number is not that of an error; or already the first one is bad. -/
def AllOrNone (b : Bytes) (sigOff n : Nat) : Prop :=
  (∀ k < n, ¬Bad b sigOff k) ∧ n ≠ 2 ^ 32 - 1 ∨ 0 < n ∧ Bad b sigOff 0

theorem returned_some {n : Nat} (word : n < 2 ^ 32) : returned (some n) = -1 ↔ n = 2 ^ 32 - 1 := by
  change (if n % 2 ^ 32 < 2 ^ 31 then ((n % 2 ^ 32 : Nat) : Int) else _) = -1 ↔ _
  split <;> omega

/-- The entries before the first bad one are unpacked, and each of them has changed something. -/
theorem unpack_unwinds (growing : Growing fs size) {n : Nat} (word : n < 2 ^ 32) (v : σ) :
    (returned (unpack fs b sigOff n 0 0 v).result = -1 → (unpack fs b sigOff n 0 0 v).vfs = v) ↔ AllOrNone b sigOff n := by
  classical
  by_cases some : ∃ k, k < n ∧ Bad b sigOff k
  · obtain ⟨low, bad⟩ := Nat.find_spec some
    have good : ∀ j < Nat.find some, ¬Bad b sigOff j := fun j before bad => Nat.find_min some before ⟨by omega, bad⟩
    generalize Nat.find some = k at low bad good
    obtain ⟨left, rfl⟩ : ∃ left, n = k + (left + 1) := ⟨n - k - 1, by omega⟩
    obtain ⟨result, vfs⟩ := unpack_bad growing k left 0 0 v (fun j _ below => good j (by omega)) (by rwa [Nat.zero_add])
    obtain ⟨-, grown⟩ := unpack_all growing k 0 0 v fun j _ below => good j (by omega)
    rw [result, vfs, forall_prop_of_true (show returned none = -1 from rfl)]
    constructor
    · intro same
      rw [same] at grown
      obtain rfl : k = 0 := by omega
      exact .inr ⟨by omega, bad⟩
    · rintro (⟨none, -⟩ | ⟨-, first⟩)
      · exact absurd bad (none k low)
      · obtain rfl : k = 0 := by
          by_contra later
          exact good 0 (by omega) first
        rfl
  · have good : ∀ k < n, ¬Bad b sigOff k := fun k low bad => some ⟨k, low, bad⟩
    obtain ⟨result, grown⟩ := unpack_all growing n 0 0 v fun j _ below => good j (by omega)
    rw [result, Nat.zero_add, returned_some word]
    constructor
    · refine fun unwinds => .inl ⟨good, fun wraps => ?_⟩
      rw [unwinds wraps] at grown
      omega
    · rintro (⟨-, other⟩ | ⟨low, first⟩)
      · exact fun wraps => absurd wraps other
      · exact absurd first (good 0 low)

end

/-- The header and the table have passed the tests before the signature. -/
def Checked (b : Bytes) (len : Nat) : Prop :=
  sizeofHdr ≤ len ∧ ¬(b.take 8 ≠ magic ∨ b.rd 4 8 ≠ 1) ∧ (b.rd 8 16 + 64) % 2 ^ 64 ≤ len ∧ sizeofHdr + b.rd 4 12 * sizeofEnt ≤ b.rd 8 16

section
variable {σ : Type*}

/-- Only the buffer is read; nothing changes before the signature is accepted, and nothing in
a call that fails. -/
structure Safe (accepts : List UInt8 → List UInt8 → Bool) (fs : Vfs σ) (b : Bytes) (len : Nat) (v : σ) : Prop where
  inside : Inside len (pkgInstall accepts fs b len v).reads
  signed : accepts (signed b len (b.rd 8 16)) (slice b (b.rd 8 16) 64) = false → (pkgInstall accepts fs b len v).vfs = v
  atomic : returned (pkgInstall accepts fs b len v).result = -1 → (pkgInstall accepts fs b len v).vfs = v

/-- The offset of the signature does not wrap, and in a package whose signature is accepted no
entry wraps that is unpacked, and either all entries are unpacked or none. -/
def Proper (accepts : List UInt8 → List UInt8 → Bool) (b : Bytes) (len : Nat) : Prop :=
  Checked b len → b.rd 8 16 + 64 < 2 ^ 64 ∧
    (accepts (signed b len (b.rd 8 16)) (slice b (b.rd 8 16) 64) = true →
      (∀ j, Unpacked b (b.rd 8 16) 0 (b.rd 4 12) j → Straight b j) ∧ AllOrNone b (b.rd 8 16) (b.rd 4 12))

variable {accepts : List UInt8 → List UInt8 → Bool} {fs : Vfs σ} {b : Bytes} {len : Nat} {v : σ}

theorem hashing_inside (small : len < 2 ^ 64) (checked : Checked b len) :
    Inside len [(0, 24), (0, b.rd 8 16), ((b.rd 8 16 + 64) % 2 ^ 64, (len + 2 ^ 65 - b.rd 8 16 - 64) % 2 ^ 64), (b.rd 8 16, 64)] ↔
      b.rd 8 16 + 64 < 2 ^ 64 := by
  obtain ⟨header, -, sig, -⟩ := checked
  have offset : b.rd 8 16 < 2 ^ 64 := Bytes.rd_lt b 8 16
  unfold sizeofHdr at header
  generalize b.rd 8 16 = sigOff at sig offset
  simp only [inside_cons]
  constructor
  · rintro ⟨-, -, -, bytes, -⟩
    omega
  · intro straight
    rw [Nat.mod_eq_of_lt straight] at sig ⊢
    have rest : (len + 2 ^ 65 - sigOff - 64) % 2 ^ 64 = len - sigOff - 64 := by omega
    rw [rest]
    refine ⟨.inr (by omega), .inr (by omega), .inr (by omega), .inr (by omega), fun _ member => nomatch member⟩

theorem unchecked_safe (fails : ¬Checked b len) : Safe accepts fs b len v := by
  have stops : ∃ reads, pkgInstall accepts fs b len v = ⟨v, reads, none⟩ ∧ Inside len reads := by
    unfold pkgInstall
    split
    · exact ⟨_, rfl, fun _ member => nomatch member⟩
    next header =>
      have header : 64 ≤ len := Nat.le_of_not_lt header
      split
      · exact ⟨_, rfl, inside_one (by omega)⟩
      next known =>
        dsimp only
        split
        · exact ⟨_, rfl, inside_one (by omega)⟩
        next sig =>
          split
          · exact ⟨_, rfl, inside_one (by omega)⟩
          next table => exact absurd ⟨header, known, Nat.le_of_not_lt sig, Nat.le_of_not_lt table⟩ fails
  obtain ⟨reads, result, inside⟩ := stops
  exact ⟨by rw [result]; exact inside, fun _ => by rw [result], fun _ => by rw [result]⟩

theorem pkgInstall_checked (checked : Checked b len) : pkgInstall accepts fs b len v =
    if accepts (signed b len (b.rd 8 16)) (slice b (b.rd 8 16) 64) then
      (unpack fs b (b.rd 8 16) (b.rd 4 12) 0 0 v).after
        [(0, 24), (0, b.rd 8 16), ((b.rd 8 16 + 64) % 2 ^ 64, (len + 2 ^ 65 - b.rd 8 16 - 64) % 2 ^ 64), (b.rd 8 16, 64)]
    else ⟨v, [(0, 24), (0, b.rd 8 16), ((b.rd 8 16 + 64) % 2 ^ 64, (len + 2 ^ 65 - b.rd 8 16 - 64) % 2 ^ 64), (b.rd 8 16, 64)], none⟩ := by
  obtain ⟨header, known, sig, table⟩ := checked
  unfold pkgInstall
  rw [if_neg (Nat.not_lt_of_le header), if_neg known]
  dsimp only
  rw [if_neg (Nat.not_lt_of_le sig), if_neg (Nat.not_lt_of_le table)]
  cases accepts (signed b len (b.rd 8 16)) (slice b (b.rd 8 16) 64) with
  | false => rfl
  | true => rfl

/-- For every buffer and length, over every file system that carries out what it is asked: the
call is safe exactly when the package is proper. -/
theorem install_safe_iff (accepts : List UInt8 → List UInt8 → Bool) (fs : Vfs σ) (size : σ → Nat) (growing : Growing fs size) (b : Bytes)
    (len : Nat) (small : len < 2 ^ 64) (v : σ) : Safe accepts fs b len v ↔ Proper accepts b len := by
  by_cases checked : Checked b len
  · have equal : pkgInstall accepts fs b len v = _ := pkgInstall_checked checked
    have hashing := hashing_inside small checked
    unfold Proper
    rw [forall_prop_of_true checked]
    cases verdict : accepts (signed b len (b.rd 8 16)) (slice b (b.rd 8 16) 64) with
    | false =>
      rw [verdict, if_neg Bool.false_ne_true] at equal
      refine ⟨fun safe => ⟨hashing.mp ?_, nofun⟩, fun proper => ⟨?_, fun _ => by rw [equal], fun _ => by rw [equal]⟩⟩
      · have inside := safe.inside
        rwa [equal] at inside
      · rw [equal]
        exact hashing.mpr proper.1
    | true =>
      rw [verdict, if_pos rfl] at equal
      have straight : b.rd 8 16 + 64 < 2 ^ 64 → b.rd 8 16 ≤ len := by
        intro straight
        have sig := checked.2.2.1
        rw [Nat.mod_eq_of_lt straight] at sig
        omega
      have table : sizeofHdr + (0 + b.rd 4 12) * sizeofEnt ≤ b.rd 8 16 := by
        rw [Nat.zero_add]
        exact checked.2.2.2
      have count : b.rd 4 12 < 2 ^ 32 := Bytes.rd_lt b 4 12
      constructor
      · intro safe
        have inside := safe.inside
        have atomic := safe.atomic
        rw [equal] at inside atomic
        obtain ⟨first, later⟩ := inside_append.mp inside
        have low := hashing.mp first
        exact ⟨low, fun _ => ⟨(unpack_inside small (straight low) _ 0 0 v table).mp later, (unpack_unwinds growing count v).mp atomic⟩⟩
      · rintro ⟨low, rest⟩
        obtain ⟨entries, unwinds⟩ := rest rfl
        refine ⟨?_, fun refused => absurd refused (by rw [verdict]; exact nofun), ?_⟩
        · rw [equal]
          exact inside_append.mpr ⟨hashing.mpr low, (unpack_inside small (straight low) _ 0 0 v table).mpr entries⟩
        · rw [equal]
          exact (unpack_unwinds growing count v).mpr unwinds
  · exact ⟨fun _ reached => absurd reached checked, fun _ => unchecked_safe checked⟩

end

def paths : Vfs (List (List UInt8)) := ⟨fun path _ v => (v ++ [path], true), fun path v => v ++ [path]⟩

def header (n sigOff : Nat) : Bytes := ((Bytes.zeros.copy 0 (fun i => magic.getD i 0) 8).wr 4 8 1 |>.wr 4 12 n).wr 8 16 sigOff

def withEnt (b : Bytes) (i : Nat) (path : UInt8) (type off size : Nat) : Bytes :=
  let start := sizeofHdr + i * sizeofEnt
  (((b.wr 1 start path.toNat).wr 4 (start + 132) type).wr 8 (start + 136) off).wr 8 (start + 144) size

/-- A header alone whose signature wraps is read far outside its 64 bytes, whatever the
signature says; and an accepted package with a directory and a bad file fails with the
directory made. -/
theorem bad_packages_leak : ¬Inside 64 (pkgInstall (fun _ _ => false) paths (header 0 (2 ^ 64 - 64)) 64 []).reads ∧
    (pkgInstall (fun _ _ => true) paths (withEnt (withEnt (header 2 368) 0 97 1 0 0) 1 98 0 369 1) 432 []).result = none ∧
    (pkgInstall (fun _ _ => true) paths (withEnt (withEnt (header 2 368) 0 97 1 0 0) 1 98 0 369 1) 432 []).vfs = [[97]] := by
  refine ⟨fun inside => ?_, by decide +kernel, by decide +kernel⟩
  have checked : Checked (header 0 (2 ^ 64 - 64)) 64 := by
    unfold Checked
    decide +kernel
  rw [pkgInstall_checked checked] at inside
  exact absurd ((hashing_inside (by decide) checked).mp inside) (by decide +kernel)

def smallPackage : Bytes := withEnt (withEnt (header 2 370) 0 97 1 0 0) 1 98 0 368 2

theorem small_package_safe : Safe (fun _ _ => true) paths smallPackage 434 [] := by
  have two : smallPackage.rd 4 12 = 2 := by decide +kernel
  have sig : smallPackage.rd 8 16 = 370 := by decide +kernel
  have entries : ∀ j < 2, Straight smallPackage j ∧ ¬Bad smallPackage 370 j := by
    unfold Straight Bad
    decide +kernel
  have growing : Growing paths List.length := ⟨fun _ _ _ => rfl, fun _ _ _ => by simp [paths], fun _ _ => by simp [paths]⟩
  refine (install_safe_iff _ _ _ growing _ _ (by decide) _).mpr ?_
  unfold Proper
  rw [two, sig]
  refine fun _ => ⟨by decide, fun _ => ⟨?_, .inl ⟨fun k high => (entries k high).2, by decide⟩⟩⟩
  rintro j ⟨-, high, -⟩
  exact (entries j (by omega)).1

end SecOS.Pkg
