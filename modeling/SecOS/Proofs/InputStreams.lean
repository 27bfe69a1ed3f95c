import SecOS.Input
import SecOS.Library.Schedule

/-! What a client reads of a device: the events the device accepted since the client's open while
no other client held the grab, with runs left out and a marker in the place of each. -/

namespace SecOS.Input
open Library List

def InputEvent.IsMarker (e : InputEvent) : Prop := e.type = evSyn ∧ e.code = synDropped

/-- The second list is the first with runs left out, each where a marker stands. -/
inductive Marked : List InputEvent → List InputEvent → Prop
  | nil : Marked [] []
  | keep {e : InputEvent} {a r : List InputEvent} (event : ¬e.IsMarker) (rest : Marked a r) : Marked (e :: a) (e :: r)
  | lost {m : InputEvent} {run a r : List InputEvent} (marker : m.IsMarker) (some_ : run ≠ []) (rest : Marked a r) : Marked (run ++ a) (m :: r)

section
variable {a b r s : List InputEvent}

theorem Marked.append (first : Marked a r) (second : Marked b s) : Marked (a ++ b) (r ++ s) := by
  induction first with
  | nil => exact second
  | keep event _ ih => exact .keep event ih
  | lost marker some_ _ ih =>
    rw [append_assoc]
    exact .lost marker some_ ih

theorem Marked.split (all : Marked a (r ++ s)) : ∃ b c, a = b ++ c ∧ Marked b r ∧ Marked c s := by
  induction r generalizing a with
  | nil => exact ⟨[], a, rfl, .nil, all⟩
  | cons e r ih =>
    cases all with
    | keep event rest =>
      obtain ⟨b, c, rfl, first, second⟩ := ih rest
      exact ⟨e :: b, c, rfl, .keep event first, second⟩
    | lost marker some_ rest =>
      obtain ⟨b, c, rfl, first, second⟩ := ih rest
      exact ⟨_ ++ b, c, (append_assoc ..).symm, .lost marker some_ first, second⟩

theorem Marked.eq_nil (marked : Marked a r) (none : a = []) : r = [] := by
  cases marked with
  | nil => rfl
  | keep => cases none
  | lost _ some_ _ => exact absurd (append_eq_nil_iff.mp none).1 some_

theorem Marked.overflow {ev m : InputEvent} (event : ¬ev.IsMarker) (marker : m.IsMarker) (all : Marked a (r ++ s)) (some_ : s ≠ []) :
    Marked (a ++ [ev]) (r ++ [m]) ∧ Marked (a ++ [ev]) (r ++ [m, ev]) := by
  obtain ⟨b, c, rfl, first, second⟩ := all.split
  have lost : c ≠ [] := fun none => some_ (second.eq_nil none)
  rw [append_assoc]
  refine ⟨first.append ?_, first.append (.lost marker lost (.keep event .nil))⟩
  exact append_nil (c ++ [ev]) ▸ .lost marker (append_ne_nil_of_left_ne_nil lost _) .nil

end

/-- What the specification knows of one client: whether it has the device open and by which clock,
who holds the grab, and what the client has been sent since its open. -/
structure View where
  isOpen : Bool
  mono : Bool
  holder : Option (Fin maxClient)
  sent : List InputEvent

def View.note (i : Fin maxClient) (v : View) : Record → View
  | .event mo rt type code value =>
    if v.isOpen ∧ (v.holder = none ∨ v.holder = some i) then
      { v with sent := v.sent ++ [⟨if v.mono then mo else rt, type, code, value⟩] }
    else v
  | .opened j => if j = i then { v with isOpen := true, mono := false, sent := [] } else v
  | .closed j => { v with isOpen := v.isOpen && j ≠ i, holder := if v.holder = some j then none else v.holder }
  | .grabbed j => { v with holder := some j }
  | .released => { v with holder := none }
  | .clock j mono => if j = i then { v with mono := mono } else v

def view (i : Fin maxClient) (log : List Record) : View := log.foldl (View.note i) ⟨false, false, none, []⟩

theorem view_note (i : Fin maxClient) (d : Dev) (r : Record) : view i (d.note r).log = (view i d.log).note i r := by
  unfold view Dev.note
  rw [foldl_append]
  rfl

/-- Drivers do not raise the marker themselves. -/
def Plain : Op → Prop
  | .event _ _ type code _ => ¬(type = evSyn ∧ code = synDropped)
  | _ => True

/-- The client is what its view says, and its reads and its ring are what was sent. -/
structure Follows (v : View) (grab : Option (Fin maxClient)) (c : Client) : Prop where
  isOpen : v.isOpen = c.used
  mono : v.mono = c.clockMono
  holder : v.holder = grab
  marked : Marked v.sent (c.reads ++ c.ring.contents)

def Streams (d : Dev) : Prop := ∀ i, Follows (view i d.log) d.grab (d.clients i)

theorem takeEvents_contents (max : Nat) (ring : EventRing) :
    (takeEvents max ring).1 ++ (takeEvents max ring).2.contents = ring.contents := by
  induction max generalizing ring with
  | zero => rfl
  | succ max ih =>
    rw [takeEvents]
    split
    · rfl
    next some_ =>
      have some_ : 0 < ring.count := Nat.pos_of_ne_zero fun none => some_ (Ring.empty_iff.mpr none)
      rw [Ring.contents_pop some_, ← ih ring.pop]
      rfl

theorem Marked.push {ev : InputEvent} {ring : EventRing} {a r : List InputEvent} (event : ¬ev.IsMarker)
    (all : Marked a (r ++ ring.contents)) : Marked (a ++ [ev]) (r ++ (clientPush ring ev).contents) := by
  unfold clientPush
  split
  next full =>
    have full := Ring.full_iff.mp full
    have some_ : ring.contents ≠ [] := fun none => by
      rw [Ring.contents_nil_iff.mp none] at full
      cases full
    have dropped : ring.discard.contents = [] := Ring.contents_nil_iff.mpr ring.count_discard
    have marker : (ring.discard.push { ev with type := evSyn, code := synDropped, value := 0 }).contents =
        [{ ev with type := evSyn, code := synDropped, value := 0 }] := by
      rw [Ring.contents_push (by rw [Ring.count_discard]; decide), dropped]
      rfl
    obtain ⟨alone, both⟩ := all.overflow (m := { ev with type := evSyn, code := synDropped, value := 0 }) event ⟨rfl, rfl⟩ some_
    dsimp only
    split
    · rw [marker]
      exact alone
    · rw [Ring.contents_push (by rw [← Ring.length_contents, marker]; exact show 2 < 256 by decide), marker]
      exact both
  next room =>
    have room : ring.count + 1 < evdevRing := Nat.lt_of_le_of_ne ring.count_lt fun full => room (Ring.full_iff.mpr full)
    rw [Ring.contents_push room, ← append_assoc]
    exact all.append (.keep event .nil)

section
variable {d : Dev} {i : Fin maxClient}

/-- The two descriptions of who is sent an event agree. -/
theorem Streams.deliver (streams : Streams d) {mo rt type code : Nat} {value : Int} (event : ¬(type = evSyn ∧ code = synDropped)) :
    Streams (deliver mo rt type code value (d.note (.event mo rt type code value))) := by
  intro i
  have before := streams i
  have now : view i (Input.deliver mo rt type code value (d.note (.event mo rt type code value))).log =
      (view i d.log).note i (.event mo rt type code value) := view_note i d _
  have heard : ((view i d.log).isOpen ∧ ((view i d.log).holder = none ∨ (view i d.log).holder = some i)) ↔
      ¬(!(d.clients i).used ∨ d.grab.isSome ∧ d.grab ≠ some i) := by
    rw [before.isOpen, before.holder]
    cases d.grab <;> simp
  rw [now]
  unfold View.note
  dsimp only [Input.deliver, Dev.note]
  by_cases sent : !(d.clients i).used ∨ d.grab.isSome ∧ d.grab ≠ some i
  · rw [if_neg (fun h => heard.mp h sent), if_pos sent]
    exact before
  · rw [if_pos (heard.mpr sent), if_neg sent, before.mono]
    exact ⟨before.isOpen, rfl, before.holder, before.marked.push event⟩

theorem Streams.set (streams : Streams d) {c : Client} (follows : Follows (view i d.log) d.grab c) : Streams (d.set i c) := by
  intro j
  unfold Dev.set
  dsimp only
  by_cases here : j = i
  · subst here
    rw [Function.update_self]
    exact follows
  · rw [Function.update_of_ne here]
    exact streams j

theorem accept_frame {d' : Dev} {type code : Nat} {value v : Int} (is : accept type code value d = some (d', v)) :
    d'.clients = d.clients ∧ d'.grab = d.grab ∧ d'.log = d.log := by
  unfold accept at is
  repeat' split at is
  all_goals cases is <;> exact ⟨rfl, rfl, rfl⟩

theorem Streams.opened (streams : Streams d) (i : Fin maxClient) :
    Streams ((d.set i ⟨true, 1, false, (d.clients i).ring.clear, []⟩).note (.opened i)) := by
  intro j
  have before := streams j
  rw [view_note]
  unfold View.note Dev.note Dev.set
  dsimp only
  by_cases here : i = j
  · subst here
    rw [if_pos rfl, Function.update_self]
    have empty : (d.clients i).ring.clear.contents = [] := Ring.contents_nil_iff.mpr (Ring.empty_iff.mp rfl)
    refine ⟨rfl, rfl, before.holder, ?_⟩
    rw [empty]
    exact .nil
  · rw [if_neg here, Function.update_of_ne (Ne.symm here)]
    exact before

theorem Streams.closed (streams : Streams d) (i : Fin maxClient) :
    Streams (({ d with grab := if d.grab = some i then none else d.grab }.set i { d.clients i with used := false, refs := 0 }).note
      (.closed i)) := by
  intro j
  have before := streams j
  rw [view_note]
  unfold View.note Dev.note Dev.set
  dsimp only
  rw [before.holder]
  by_cases here : i = j
  · subst here
    rw [Function.update_self]
    exact ⟨by simp, before.mono, rfl, before.marked⟩
  · rw [Function.update_of_ne (Ne.symm here)]
    exact ⟨by simp [here, before.isOpen], before.mono, rfl, before.marked⟩

theorem step_streams (streams : Streams d) (op : Op) (plain : Plain op) : Streams (step d op) := by
  cases op with
  | event mo rt type code value =>
    unfold step
    dsimp only
    split
    · exact streams
    next d' v is =>
      obtain ⟨clients, grab, log⟩ := accept_frame is
      refine Streams.deliver (d := { d' with pending := d'.pending + 1 }) (fun i => ?_) plain
      dsimp only
      rw [clients, grab, log]
      exact streams i
  | sync mo rt =>
    unfold step
    dsimp only
    split
    · exact streams
    · exact Streams.deliver (d := { d with pending := 0 }) streams (by decide)
  | «open» =>
    unfold step
    dsimp only
    split
    · exact streams
    next i _ => exact streams.opened i
  | ref i =>
    unfold step
    dsimp only
    split
    · exact streams.set ⟨(streams i).isOpen, (streams i).mono, (streams i).holder, (streams i).marked⟩
    · exact streams
  | unref i =>
    unfold step
    dsimp only
    split
    · exact streams
    split
    · exact streams.closed i
    · exact streams.set ⟨(streams i).isOpen, (streams i).mono, (streams i).holder, (streams i).marked⟩
  | read i max =>
    unfold step
    dsimp only
    split
    · refine streams.set ⟨(streams i).isOpen, (streams i).mono, (streams i).holder, ?_⟩
      rw [append_assoc, takeEvents_contents]
      exact (streams i).marked
    · exact streams
  | grab i hold =>
    have taken : ∀ holder r, (∀ j v, (View.note j v r) = { v with holder := holder }) → Streams ({ d with grab := holder }.note r) := by
      intro holder r noted j
      rw [view_note, noted]
      exact ⟨(streams j).isOpen, (streams j).mono, rfl, (streams j).marked⟩
    unfold step
    dsimp only
    split
    · exact streams
    split
    · split
      · exact streams
      · exact taken _ _ fun _ _ => rfl
    · split
      · exact taken _ _ fun _ _ => rfl
      · exact streams
  | setClock i mono =>
    unfold step
    dsimp only
    split
    · intro j
      rw [view_note]
      unfold View.note Dev.note Dev.set
      dsimp only
      by_cases here : i = j
      · subst here
        rw [if_pos rfl, Function.update_self]
        exact ⟨(streams i).isOpen, rfl, (streams i).holder, (streams i).marked⟩
      · rw [if_neg here, Function.update_of_ne (Ne.symm here)]
        exact streams j
    · exact streams

end

/-- Whatever is done with a device: what a client has read is the beginning of what it was to be
sent, the events accepted since its open while nobody else held the grab, with a marker in the
place of each run that is left out; and so is what its ring still holds. -/
theorem reads_marked (absinfo : Nat → Int) (ops : List Op) (plain : ∀ op ∈ ops, Plain op) (i : Fin maxClient) :
    let d := ops.foldl step (registered absinfo)
    ∃ seen later, (view i d.log).sent = seen ++ later ∧ Marked seen (d.clients i).reads ∧ Marked later (d.clients i).ring.contents := by
  have empty : emptyRing.contents = [] := Ring.contents_nil_iff.mpr (Ring.empty_iff.mp rfl)
  have start : Streams (registered absinfo) := fun _ => ⟨rfl, rfl, rfl, show Marked [] ([] ++ emptyRing.contents) from empty ▸ .nil⟩
  have keeps : ∀ d op, Streams d → Plain op → Streams (step d op) := fun _ op streams => step_streams streams op
  exact (foldl_keeps keeps start (permitted_of_forall fun op member _ => plain op member) i).marked.split

/-- Two clients, of which the second grabs the device: the key that goes down then is not for the first. -/
def grabRun : List Op := [.open, .open, .event 0 0 evKey 30 1, .sync 0 0, .grab 1 true, .event 0 0 evKey 31 1, .read 0 1, .read 1 2]

theorem grab_marked : (view 0 (grabRun.foldl step (registered fun _ => 0)).log).sent.length = 2 ∧
    (view 1 (grabRun.foldl step (registered fun _ => 0)).log).sent.length = 3 ∧
    ∃ seen later, (view 1 (grabRun.foldl step (registered fun _ => 0)).log).sent = seen ++ later ∧
      Marked seen ((grabRun.foldl step (registered fun _ => 0)).clients 1).reads ∧
      Marked later ((grabRun.foldl step (registered fun _ => 0)).clients 1).ring.contents :=
  ⟨by decide, by decide, reads_marked _ grabRun (by simp [grabRun, Plain, evKey, evSyn]) 1⟩

end SecOS.Input
