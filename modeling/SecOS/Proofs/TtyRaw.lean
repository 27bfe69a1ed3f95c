import SecOS.Proofs.TtyLines

/-! The end of file in non-canonical mode. A marker that canonical mode has left in the queue
counts as input and yields no byte, so a read that finds nothing but markers returns 0. -/

namespace SecOS.Tty
open Library List

def Stale (t : Terminal) : Prop := 0 < t.q.count ∧ ∀ v ∈ t.q.contents, v.eof = true

theorem takeRaw_nil_iff (len : Nat) {left : Nat} : ∀ {t : Terminal}, t.q.count = left →
    ((takeRaw left (len + 1) t).2 = [] ↔ ∀ v ∈ t.q.contents, v.eof = true) := by
  induction left with
  | zero =>
    intro t none
    rw [Ring.contents_nil_iff.mpr none]
    exact ⟨fun _ _ member => absurd member not_mem_nil, fun _ => rfl⟩
  | succ left ih =>
    intro t is
    have some_ : 0 < t.q.count := by omega
    have fewer := Ring.count_pop some_
    rw [Ring.contents_pop some_, forall_mem_cons, takeRaw]
    split
    next marker =>
      rw [ih (by dsimp only; omega)]
      exact ⟨fun rest => ⟨marker, rest⟩, And.right⟩
    next byte => exact ⟨fun none => absurd none (cons_ne_nil _ _), fun all => absurd all.1 byte⟩

/-- A read that waits for bytes, on a terminal that is not hung up. -/
def RawRead (t : Terminal) (len : Nat) : Prop := t.hungup = false ∧ t.tio.icanon = false ∧ 0 < t.tio.vmin ∧ 0 < len

def NoFalseEnd (s : Session) : Action → Prop
  | .read len reader clock => RawRead s.tty len → (ttyLdiscRead s.tty len reader clock).2 ≠ .ok []
  | _ => True

/-- A read that is let in and finds only markers has to go on waiting. -/
def Fresh (s : Session) : Action → Prop
  | .read len reader clock => RawRead s.tty len → reader.refused = 0 → Stale s.tty →
      s.tty.q.count < min s.tty.tio.vmin.toNat len ∧ ¬(0 < s.tty.tio.vtime ∧ tlen s.tty clock ≤ clock.now - s.tty.lastRx)
  | _ => True

section
variable {t : Terminal} {len : Nat} {reader : Reader} {clock : Clock}

theorem taken_nil_iff (raw : RawRead t len) (pid : Nat) :
    (found (take { t with vtimePid := pid } len)).2 = .ok [] ↔ ∀ v ∈ t.q.contents, v.eof = true := by
  obtain ⟨_, icanon, _, some_⟩ := raw
  obtain ⟨len, rfl⟩ := Nat.exists_eq_succ_of_ne_zero (Nat.ne_of_gt some_)
  rw [found, take, if_neg (Bool.eq_false_iff.mp icanon), Except.ok.injEq]
  exact takeRaw_nil_iff len rfl

theorem readRaw_nil_iff (raw : RawRead t len) : (readRaw t len reader clock).2 = .ok [] ↔ Stale t ∧
    (min t.tio.vmin.toNat len ≤ t.q.count ∨ 0 < t.tio.vtime ∧ tlen t clock ≤ clock.now - t.lastRx) := by
  have vmin := raw.2.2.1
  have least : 0 < min t.tio.vmin.toNat len := Nat.lt_min.mpr ⟨UInt8.lt_iff_toNat_lt.mp vmin, raw.2.2.2⟩
  unfold readRaw
  rw [if_neg fun none => UInt8.ne_of_lt vmin none.1.symm]
  split
  next enough =>
    rw [taken_nil_iff raw]
    exact ⟨fun all => ⟨⟨least.trans_le enough.2, all⟩, .inl enough.2⟩, fun stale => stale.1.2⟩
  next few =>
    split
    next timed =>
      rw [taken_nil_iff raw t.vtimePid]
      exact ⟨fun all => ⟨⟨timed.2.2.1, all⟩, .inr ⟨timed.2.1, timed.2.2.2⟩⟩, fun stale => stale.1.2⟩
    next early =>
      rw [if_neg (UInt8.ne_of_lt vmin).symm]
      refine ⟨by rintro ⟨⟩, ?_⟩
      rintro ⟨stale, enough | timed⟩
      · exact absurd ⟨vmin, enough⟩ few
      · exact absurd ⟨vmin, timed.1, stale.1, timed.2⟩ early

end

theorem noFalseEnd_iff (s : Session) (a : Action) : NoFalseEnd s a ↔ Fresh s a := by
  cases a with
  | write | set => exact Iff.rfl
  | read len reader clock =>
    refine forall_congr' fun raw => ?_
    unfold ttyLdiscRead
    rw [if_neg (Nat.ne_of_gt raw.2.2.2)]
    split
    next refused => exact ⟨fun _ admitted => absurd admitted refused, fun _ => by rintro ⟨⟩⟩
    next admitted =>
      rw [if_neg (Bool.eq_false_iff.mp raw.1), if_neg (Bool.eq_false_iff.mp raw.2.1), Ne, readRaw_nil_iff raw, not_and, not_or, Nat.not_le]
      exact ⟨fun fresh _ => fresh, fun fresh => fresh (not_not.mp admitted)⟩

/-- Every history whose reads meet the condition is without a false end of file, and no other. -/
theorem raw_reads_end_iff (tio : Termios) (actions : List Action) :
    Permitted step NoFalseEnd (session tio) actions ↔ Permitted step Fresh (session tio) actions := by
  rw [show NoFalseEnd = Fresh from funext fun s => funext fun a => propext (noFalseEnd_iff s a)]

/-- An end of file typed on an empty line, then raw mode: the read returns 0. -/
theorem stale_marker_read : ¬Permitted step NoFalseEnd (session cooked)
    [.write [0x04] 0, .set { cooked with icanon := false }, .read 1 ⟨1, 0, false, false⟩ ⟨0, 1000⟩] :=
  fun fine => fine.2.2.1 ⟨rfl, rfl, by decide, by decide⟩ (by decide +kernel)

end SecOS.Tty
