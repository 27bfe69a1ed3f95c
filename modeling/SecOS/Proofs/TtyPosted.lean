import SecOS.Proofs.TtyLines
import SecOS.TtySignals

/-! Which of the signals that a write or a hang-up raises are posted: the first eight. -/

namespace SecOS.Tty
open List

/-- The signals that the bytes of a write raise. -/
def signals (now : Nat) : Terminal → List UInt8 → List Signal
  | _, [] => []
  | t, c :: rest => (raised t c).toList ++ signals now (processByte t c now) rest

def Pty.toGroup (p : Pty) (sig : Signal) : TtySig := ⟨p.fgPgrp, sig, false⟩

/-- The signals of the last close of the master. -/
def hangups (p : Pty) : List TtySig :=
  if p.mrefs = 1 then
    (if p.fgPgrp = 0 then [] else [p.toGroup .hup, p.toGroup .cont]) ++
      if p.session = 0 then [] else [⟨p.session, .hup, true⟩, ⟨p.session, .cont, true⟩]
  else []

section
variable {p : Pty} {now : Nat}

theorem emit_psig {s : TtySig} (target : s.id ≠ 0) (few : p.psig.length ≤ psigMax) :
    (ttyEmitSig s p).psig = (p.psig ++ [s]).take psigMax := by
  unfold ttyEmitSig
  rw [if_neg target]
  split
  · rw [take_of_length_le]
    simp
    omega
  · rw [take_left' (by omega)]

theorem emit_same (s : TtySig) (p : Pty) : (ttyEmitSig s p).fgPgrp = p.fgPgrp ∧ (ttyEmitSig s p).tty = p.tty := by
  unfold ttyEmitSig
  split
  · exact ⟨rfl, rfl⟩
  · split <;> exact ⟨rfl, rfl⟩

theorem take_take_append {α : Type} (n : Nat) (a b : List α) : (a.take n ++ b).take n = (a ++ b).take n := by
  rcases Nat.le_total a.length n with short | long
  · rw [take_of_length_le short]
  · rw [take_append_of_le_length long, take_left' (length_take_of_le long)]

theorem inputs_psig (now : Nat) (group : p.fgPgrp ≠ 0) (few : p.psig.length ≤ psigMax) (bytes : List UInt8) :
    (bytes.foldl (ttyInputByte now) p).psig = (p.psig ++ (signals now p.tty bytes).map p.toGroup).take psigMax := by
  induction bytes generalizing p with
  | nil => simp [signals, take_of_length_le few]
  | cons c rest ih =>
    rw [foldl_cons, signals, ttyInputByte]
    cases raised p.tty c with
    | none => exact ih group few
    | some sig =>
      have queued := emit_psig (p := { p with tty := processByte p.tty c now }) (s := p.toGroup sig) group few
      obtain ⟨same, tty⟩ := emit_same (p.toGroup sig) { p with tty := processByte p.tty c now }
      rw [Pty.toGroup] at queued same tty
      have group' : Pty.toGroup (ttyEmitSig ⟨p.fgPgrp, sig, false⟩ { p with tty := processByte p.tty c now }) = p.toGroup :=
        funext fun _ => congrArg (TtySig.mk · _ _) same
      rw [ih (by rw [same]; exact group) (by rw [queued]; exact length_take_le ..), queued, group', tty, take_take_append]
      simp [Pty.toGroup]

theorem unref_posts (idle : p.psig = []) : (unrefMaster p).2 = hangups p := by
  unfold hangups unrefMaster
  split
  · by_cases group : p.fgPgrp = 0 <;> by_cases session : p.session = 0 <;>
      simp [finish, hangupSession, ttyEmitSig, idle, psigMax, group, session, Pty.toGroup]
  · exact idle

theorem write_posts (now : Nat) (idle : p.psig = []) (group : p.fgPgrp ≠ 0) (bytes : List UInt8) :
    (writeMaster now bytes p).2 = ((signals now p.tty (admitted p.tty bytes)).take psigMax).map p.toGroup := by
  unfold writeMaster
  split
  next none =>
    rw [none, admitted, take_nil]
    rfl
  · have posted := inputs_psig now group (by rw [idle]; exact Nat.zero_le _) (admitted p.tty bytes)
    rw [idle, nil_append, ← map_take] at posted
    exact posted

theorem write_drains (now : Nat) (idle : p.psig = []) (bytes : List UInt8) : (writeMaster now bytes p).1.psig = [] := by
  unfold writeMaster
  split
  · exact idle
  · rfl

end

/-- Between two calls nothing is queued. What a write raises, with a group in the foreground, is
posted if no signal is raised only after the first eight; what a hang-up raises is posted
always. -/
theorem signals_posted_iff (now : Nat) (bytes : List UInt8) (p : Pty) (idle : p.psig = []) :
    let sigs := signals now p.tty (admitted p.tty bytes)
    (p.fgPgrp ≠ 0 → ((∀ sig ∈ sigs, p.toGroup sig ∈ (writeMaster now bytes p).2) ↔ ∀ sig ∈ sigs, sig ∈ sigs.take psigMax)) ∧
      (unrefMaster p).2 = hangups p ∧ (writeMaster now bytes p).1.psig = [] ∧ (unrefMaster p).1.psig = [] := by
  refine ⟨fun group => ?_, unref_posts idle, write_drains now idle bytes, rfl⟩
  have posted := write_posts now idle group bytes
  have injective : Function.Injective p.toGroup := fun _ _ same => congrArg TtySig.sig same
  simp only [posted, List.mem_map_of_injective injective]

/-- A terminal of session 1 with group 2 in the foreground, and signal characters. -/
def watched : Pty := ⟨(session { cooked with isig := true }).tty, 1, 2, [], 1, 1⟩

theorem interrupt_posted : watched.toGroup .int ∈ (writeMaster 0 [3] watched).2 :=
  ((signals_posted_iff 0 [3] watched rfl).1 (by decide)).mpr (by decide +kernel) .int (by decide +kernel)

/-- Eight interrupts in one write, and a quit that is lost. -/
theorem quit_lost : .quit ∈ signals 0 watched.tty (admitted watched.tty [3, 3, 3, 3, 3, 3, 3, 3, 0x1C]) ∧
    watched.toGroup .quit ∉ (writeMaster 0 [3, 3, 3, 3, 3, 3, 3, 3, 0x1C] watched).2 := by decide +kernel

end SecOS.Tty
