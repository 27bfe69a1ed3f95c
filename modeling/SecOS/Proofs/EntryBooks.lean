import SecOS.Proofs.Holders

/-! References to pseudo terminals and input clients. Taking and dropping a reference keeps the
counters equal to the entries that are held. -/

namespace SecOS.Descriptors
open Library Function Option

variable {s s' : System} {held held' : Ref → Nat} {a : Nat} {p p' : Pty} {e : End}

theorem ptyOf_eq (sound : Sound s) (a : Nat) : ptyOf s a = s.ptys a := by
  unfold ptyOf
  split
  · rfl
  next absent =>
    cases there : s.ptys a with
    | none => rfl
    | some p =>
      obtain ⟨_, slot⟩ := sound.ptys a p there
      refine absurd (List.any_eq_true.mpr ⟨p.idx, List.mem_finRange _, ?_⟩) absent
      exact beq_iff_eq.mpr slot

theorem Pty.count_pos (p : Pty) : 0 < p.mrefs + p.srefs + p.crefs ↔ ∃ e, 0 < p.count e := by
  constructor
  · intro some
    by_cases master : 0 < p.mrefs
    · exact ⟨.master, master⟩
    · by_cases slave : 0 < p.srefs
      · exact ⟨.slave, slave⟩
      · exact ⟨.ctty, show 0 < p.crefs by omega⟩
  · rintro ⟨e, some⟩
    cases e <;> simp only [Pty.count] at some <;> omega

section
variable (books : Books s held)
include books

theorem Books.pty_count (there : s.ptys a = some p) (e : End) : p.count e = held (.pty e a) := by
  rw [← books.exact]
  simp only [counter, there, map_some, getD_some]

theorem Books.pty_there (live : 0 < held (.pty e a)) : ∃ p, s.ptys a = some p := by
  rw [← books.exact] at live
  cases there : s.ptys a with
  | some p => exact ⟨p, rfl⟩
  | none =>
    simp only [counter, there] at live
    exact absurd live (Nat.lt_irrefl 0)

theorem Books.setPty (there : s.ptys a = some p) (idx : p'.idx = p.idx) (some : 0 < p'.mrefs + p'.srefs + p'.crefs)
    (here : ∀ e, p'.count e = held' (.pty e a)) (others : ∀ x, (∀ e, x ≠ .pty e a) → held' x = held x) : Books (s.setPty a p') held' := by
  refine ⟨⟨books.sound.pipes, books.sound.socks, fun b q found => ?_, fun i b found => ?_, books.sound.clients⟩, fun x => ?_⟩
  · simp only [System.setPty] at found ⊢
    by_cases same : b = a
    · subst same
      rw [update_self] at found
      cases found
      exact ⟨some, idx ▸ (books.sound.ptys b p there).2⟩
    · rw [update_of_ne same] at found
      exact books.sound.ptys b q found
  · obtain ⟨q, object, place⟩ := books.sound.slots i b found
    simp only [System.setPty]
    by_cases same : b = a
    · subst same
      rw [there] at object
      cases object
      exact ⟨p', update_self _ _ _, idx.trans place⟩
    · exact ⟨q, (update_of_ne same _ _).trans object, place⟩
  · by_cases ours : ∃ e, x = .pty e a
    · obtain ⟨e, rfl⟩ := ours
      simp only [counter, System.setPty, update_self, map_some, getD_some]
      exact here e
    · rw [others x fun e equal => ours ⟨e, equal⟩, ← books.exact]
      cases x with
      | pty e b =>
        have apart : b ≠ a := fun same => ours ⟨e, by rw [same]⟩
        simp only [counter, System.setPty, update_of_ne apart]
      | _ => rfl

theorem Books.freePty (there : s.ptys a = some p) (gone : ∀ e, held' (.pty e a) = 0)
    (others : ∀ x, (∀ e, x ≠ .pty e a) → held' x = held x) :
    Books { s with slots := update s.slots p.idx none, ptys := update s.ptys a none } held' := by
  obtain ⟨_, slot⟩ := books.sound.ptys a p there
  refine ⟨⟨books.sound.pipes, books.sound.socks, fun b q found => ?_, fun i b found => ?_, books.sound.clients⟩, fun x => ?_⟩
  · dsimp only at found ⊢
    have apart : b ≠ a := by
      rintro rfl
      rw [update_self] at found
      cases found
    rw [update_of_ne apart] at found
    obtain ⟨some, place⟩ := books.sound.ptys b q found
    refine ⟨some, ?_⟩
    rw [update_of_ne, place]
    intro clash
    rw [clash, slot] at place
    exact apart (Option.some.inj place).symm
  · dsimp only at found ⊢
    have other : i ≠ p.idx := by
      rintro rfl
      rw [update_self] at found
      cases found
    rw [update_of_ne other] at found
    obtain ⟨q, object, place⟩ := books.sound.slots i b found
    refine ⟨q, ?_, place⟩
    rw [update_of_ne, object]
    rintro rfl
    rw [there] at object
    cases object
    exact other place.symm
  · by_cases ours : ∃ e, x = .pty e a
    · obtain ⟨e, rfl⟩ := ours
      rw [gone e]
      simp only [counter, update_self]
      rfl
    · rw [others x fun e equal => ours ⟨e, equal⟩, ← books.exact]
      cases x with
      | pty e b =>
        have apart : b ≠ a := fun same => ours ⟨e, by rw [same]⟩
        simp only [counter, update_of_ne apart]
      | _ => rfl

theorem maybeDetach_books (there : s.ptys a = some p) (idx : p'.idx = p.idx)
    (here : ∀ e, p'.count e = held' (.pty e a)) (others : ∀ x, (∀ e, x ≠ .pty e a) → held' x = held x) :
    Books (maybeDetach s a p') held' := by
  unfold maybeDetach
  split
  · exact books.setPty there idx (by omega) here others
  rw [idx]
  dsimp only
  rw [if_pos (books.sound.ptys a p there).2]
  refine books.freePty there (fun e => ?_) others
  rw [← here e]
  cases e <;> simp only [Pty.count] <;> omega

end

theorem one_pty (e e' : End) (a : Nat) : one (some (.pty e a)) (.pty e' a) = if e' = e then 1 else 0 := by
  rw [one_some]
  by_cases same : e' = e
  · rw [if_pos same, if_pos (by rw [same])]
  · rw [if_neg same, if_neg fun equal => same (by cases equal; rfl)]

theorem Books.takePty (books : Books s held) (there : s.ptys a = some p) (idx : p'.idx = p.idx)
    (counts : ∀ e', p'.count e' = p.count e' + if e' = e then 1 else 0) :
    Books (s.setPty a p') fun x => held x + one (some (.pty e a)) x := by
  refine books.setPty there idx ?_ (fun e' => ?_) (fun x apart => ?_)
  · rw [Pty.count_pos]
    exact ⟨e, by rw [counts, if_pos rfl]; omega⟩
  · rw [counts, one_pty, books.pty_count there]
  · rw [one_some, if_neg (apart e), Nat.add_zero]

theorem Books.dropPty (books : Books s fun x => held x + one (some (.pty e a)) x) (there : s.ptys a = some p) (idx : p'.idx = p.idx)
    (counts : ∀ e', p'.count e' = p.count e' - if e' = e then 1 else 0) : Books (maybeDetach s a p') held := by
  refine maybeDetach_books books there idx (fun e' => ?_) (fun x apart => ?_)
  · have count := books.pty_count there e'
    rw [one_pty] at count
    rw [counts]
    omega
  · rw [one_some, if_neg (apart e), Nat.add_zero]

variable {object : Object}

theorem ptyRef_books (books : Books s held) {e : End} (named : object.ref = some (.pty e a)) (live : 0 < held (.pty e a)) :
    Books (ptyRef s object) fun x => held x + one object.ref x := by
  obtain ⟨p, there⟩ := books.pty_there live
  cases object with
  | master b =>
    cases named
    simp only [ptyRef, ptyOf_eq books.sound, there]
    exact books.takePty there rfl fun e' => by cases e' <;> rfl
  | slave b =>
    cases named
    simp only [ptyRef, ptyOf_eq books.sound, there]
    exact books.takePty there rfl fun e' => by cases e' <;> rfl
  | _ => cases named

theorem ptyUnref_books {e : End} (named : object.ref = some (.pty e a))
    (books : Books s fun x => held x + one object.ref x) : Books (ptyUnref s object) held := by
  rw [named] at books
  obtain ⟨p, there⟩ := books.pty_there (show 0 < held (.pty e a) + one (some (.pty e a)) (.pty e a) by rw [one_self]; omega)
  cases object with
  | master b =>
    cases named
    simp only [ptyUnref, ptyOf_eq books.sound, there]
    split
    next last => exact books.dropPty there rfl fun e' => by cases e' <;> simp [Pty.count, hangupSession, last]
    · exact books.dropPty there rfl fun e' => by cases e' <;> rfl
  | slave b =>
    cases named
    simp only [ptyUnref, ptyOf_eq books.sound, there]
    exact books.dropPty there rfl fun e' => by cases e' <;> rfl
  | _ => cases named

theorem cttyRef_books (books : Books s held) (ctty : Option Nat) (live : ∀ a, ctty = some a → 0 < held (.pty .ctty a)) :
    Books (ptyCttyRef s ctty) fun x => held x + one (ctty.map (.pty .ctty)) x := by
  cases ctty with
  | none => exact books.congr fun x => by rw [map_none, one_none, Nat.add_zero]
  | some a =>
    obtain ⟨p, there⟩ := books.pty_there (live a rfl)
    simp only [ptyCttyRef, there]
    exact books.takePty there rfl fun e' => by cases e' <;> rfl

theorem cttyUnref_books {c : Process} {leader : Bool} {ctty : Option Nat} (books : Books s fun x => held x + one (ctty.map (.pty .ctty)) x) :
    Books (cttyUnref s c leader ctty) held := by
  cases ctty with
  | none => exact books.congr fun x => by rw [map_none, one_none, Nat.add_zero]
  | some a =>
    have books : Books s fun x => held x + one (some (.pty .ctty a)) x := books
    obtain ⟨p, there⟩ := books.pty_there (show 0 < held (.pty .ctty a) + one (some (.pty .ctty a)) (.pty .ctty a) by rw [one_self]; omega)
    simp only [cttyUnref, there]
    split
    · exact books.dropPty there rfl fun e' => by cases e' <;> rfl
    · exact books.dropPty there rfl fun e' => by cases e' <;> rfl

theorem Books.setClient (books : Books s held) (i : Fin inputMaxClient) (q : Client) (used : q.used = true ↔ 0 < q.refs)
    (here : q.refs = held' (.client i)) (others : ∀ x, x ≠ .client i → held' x = held x) :
    Books { s with clients := update s.clients i q } held' := by
  refine ⟨⟨books.sound.pipes, books.sound.socks, books.sound.ptys, books.sound.slots, fun j => ?_⟩, fun x => ?_⟩
  · dsimp only
    by_cases same : j = i
    · subst same
      rw [update_self]
      exact used
    · rw [update_of_ne same]
      exact books.sound.clients j
  · by_cases ours : x = .client i
    · subst ours
      simp only [counter, update_self]
      exact here
    · rw [others x ours, ← books.exact]
      cases x with
      | client j =>
        have apart : j ≠ i := fun same => ours (by rw [same])
        simp only [counter, update_of_ne apart]
      | _ => rfl

theorem clientRef_books (books : Books s held) {i : Fin inputMaxClient} (live : 0 < held (.client i)) :
    Books (inputObjRef s (.client i)) fun x => held x + one (some (.client i)) x := by
  have count : (s.clients i).refs = held (.client i) := books.exact (.client i)
  have used := (books.sound.clients i).mpr (by omega)
  simp only [inputObjRef, used, ↓reduceIte]
  refine books.setClient i _ (by simp) ?_ (fun x apart => ?_)
  · rw [one_self, count]
  · rw [one_some, if_neg apart, Nat.add_zero]

theorem clientUnref_books {i : Fin inputMaxClient} (books : Books s fun x => held x + one (some (.client i)) x) :
    Books (inputObjUnref s (.client i)) held := by
  have count : (s.clients i).refs = held (.client i) + one (some (.client i)) (.client i) := books.exact (.client i)
  rw [one_self] at count
  have used := (books.sound.clients i).mpr (by omega)
  simp only [inputObjUnref, used, ↓reduceIte]
  refine books.setClient i _ ?_ ?_ (fun x apart => ?_)
  · rw [decide_eq_true_iff]
    dsimp only
    omega
  · dsimp only
    omega
  · rw [one_some, if_neg apart, Nat.add_zero]

theorem entryRef_books (books : Books s held) (live : ∀ x, object.ref = some x → 0 < held x) :
    Books (fdEntryRef s object) fun x => held x + one object.ref x := by
  cases object with
  | null => exact books.congr fun x => by rw [Object.ref, one_none, Nat.add_zero]
  | file n => exact books.congr fun x => by rw [Object.ref, one_none, Nat.add_zero]
  | pipe i w => exact pipeRef_books books (live _ rfl)
  | sock i => exact sockRef_books books (live _ rfl)
  | master a =>
    have named : (Object.master a).ref = some (.pty .master a) := rfl
    exact ptyRef_books books named (live _ rfl)
  | slave a =>
    have named : (Object.slave a).ref = some (.pty .slave a) := rfl
    exact ptyRef_books books named (live _ rfl)
  | client i => exact clientRef_books books (live _ rfl)

theorem entryUnref_books (now : Nat) (books : Books s fun x => held x + one object.ref x) :
    Books (fdEntryUnref now s object) held := by
  cases object with
  | null => exact books.congr fun x => by rw [Object.ref, one_none, Nat.add_zero]
  | file n => exact books.congr fun x => by rw [Object.ref, one_none, Nat.add_zero]
  | pipe i w => exact pipeUnref_books books
  | sock i => exact sockUnref_books now books
  | master a =>
    have named : (Object.master a).ref = some (.pty .master a) := rfl
    exact ptyUnref_books named books
  | slave a =>
    have named : (Object.slave a).ref = some (.pty .slave a) := rfl
    exact ptyUnref_books named books
  | client i => exact clientUnref_books books

theorem maybeDetach_procs (s : System) (a : Nat) (p : Pty) : (maybeDetach s a p).procs = s.procs := by
  unfold maybeDetach
  split <;> rfl

theorem ptyRef_procs (s : System) (object : Object) : (ptyRef s object).procs = s.procs := by
  cases object with
  | master a =>
    rw [ptyRef]
    split <;> rfl
  | slave a =>
    rw [ptyRef]
    split <;> rfl
  | _ => rfl

theorem ptyUnref_procs (s : System) (object : Object) : (ptyUnref s object).procs = s.procs := by
  cases object with
  | master a =>
    rw [ptyUnref]
    split
    · exact maybeDetach_procs _ _ _
    · rfl
  | slave a =>
    rw [ptyUnref]
    split
    · exact maybeDetach_procs _ _ _
    · rfl
  | _ => rfl

theorem inputObjRef_procs (s : System) (object : Object) : (inputObjRef s object).procs = s.procs := by
  cases object with
  | client i =>
    rw [inputObjRef]
    split <;> rfl
  | _ => rfl

theorem inputObjUnref_procs (s : System) (object : Object) : (inputObjUnref s object).procs = s.procs := by
  cases object with
  | client i =>
    rw [inputObjUnref]
    split <;> rfl
  | _ => rfl

theorem entryRef_procs (s : System) (object : Object) : (fdEntryRef s object).procs = s.procs := by
  cases object with
  | pipe i w => rfl
  | sock i => rfl
  | _ => exact (inputObjRef_procs _ _).trans (ptyRef_procs _ _)

theorem entryUnref_procs (now : Nat) (s : System) (object : Object) : (fdEntryUnref now s object).procs = s.procs := by
  cases object with
  | pipe i w => rfl
  | sock i => rfl
  | _ => exact (inputObjUnref_procs _ _).trans (ptyUnref_procs _ _)

theorem cttyRef_procs (s : System) (ctty : Option Nat) : (ptyCttyRef s ctty).procs = s.procs := by
  cases ctty with
  | none => rfl
  | some a =>
    rw [ptyCttyRef]
    split <;> rfl

theorem cttyUnref_procs (s : System) (c : Process) (leader : Bool) (ctty : Option Nat) : (cttyUnref s c leader ctty).procs = s.procs := by
  cases ctty with
  | none => rfl
  | some a =>
    rw [cttyUnref]
    split
    · exact maybeDetach_procs _ _ _
    · rfl

end SecOS.Descriptors
