import SecOS.Proofs.TcpIntegrity
import SecOS.Proofs.TcpBlocks

/-! Two connections and the segments between them, over whole runs: each end has received a part
of what the other end was given to write, and both agree on where the streams end. -/

namespace SecOS.Tcp
open Function List Option

structure Joined (k : Link) : Prop where
  ok : ∀ side m, k.ends side = some m → m.Ok ∧ m.orphan = false
  met : ∀ side m, k.ends side = some m → Met (k.ends side.other) m
  told : ∀ side m, k.ends side = some m → ∀ e ∈ k.sent side, Told m (k.ends side.other) e.1 e.2
  silent : ∀ side, k.ends side = none → k.sent side = []

section
variable {k : Link} {side : Side} {m m' : Conn} {peer : Option Conn} {r : Conn × List Segment}

theorem Side.other_ne (side : Side) : side.other ≠ side := by cases side <;> nofun

theorem Side.other_other (side : Side) : side.other.other = side := by cases side <;> rfl

theorem Side.eq_or (side side' : Side) : side' = side ∨ side' = side.other := by
  cases side <;> cases side'
  · exact .inl rfl
  · exact .inr rfl
  · exact .inr rfl
  · exact .inl rfl

theorem Met.quiet (met : Met peer m) (quiet : Quiet m m') : Met peer m' := by
  cases peer with
  | some p => exact Received.quiet met quiet
  | none =>
    refine ⟨met.1.quiet quiet, ?_⟩
    rcases quiet.state with ⟨same, _⟩ | ⟨closed, _⟩
    · rw [same]
      exact met.2
    · rw [closed]
      exact .inr rfl

theorem Met.named (met : Met peer m) : m.state ≠ .listen := by
  intro state
  cases peer with
  | some p =>
    rw [Met, Received, state] at met
    exact met
  | none =>
    have received := met.1
    rw [Received, state] at received
    exact received

theorem Met.meet (met : Met none m) (p : Conn) : Received p m := by
  obtain ⟨received, calling | closed⟩ := met
  · rw [Received, calling] at received ⊢
    exact received
  · rw [Received, closed] at received ⊢
    have nothing : got m = [] := List.prefix_nil.mp received.1
    refine ⟨by rw [nothing]; exact nil_prefix, fun opened reset => ?_⟩
    cases (received.2 opened reset).2

theorem move_ends (k : Link) (side : Side) (r : Conn × List Segment) : (k.move side r).ends side = some r.1 := update_self ..

theorem move_ends_other (k : Link) (side : Side) (r : Conn × List Segment) : (k.move side r).ends side.other = k.ends side.other :=
  update_of_ne side.other_ne ..

theorem move_sent (k : Link) (side : Side) (r : Conn × List Segment) :
    (k.move side r).sent side = k.sent side ++ r.2.map fun s => (position r.1 s, s) := update_self ..

theorem move_sent_other (k : Link) (side : Side) (r : Conn × List Segment) : (k.move side r).sent side.other = k.sent side.other :=
  update_of_ne side.other_ne ..

theorem Joined.move (joined : Joined k) (good : Good r) (owned : r.1.orphan = false) (met : Met (k.ends side.other) r.1)
    (grows : ∀ m, k.ends side = some m → Grows m r.1) : Joined (k.move side r) := by
  have here := move_ends k side r
  have there := move_ends_other k side r
  refine ⟨fun side' m held => ?_, fun side' m held => ?_, fun side' m held => ?_, fun side' none => ?_⟩
  · rcases side.eq_or side' with rfl | rfl
    · rw [here] at held
      cases held
      exact ⟨good.1, owned⟩
    · rw [there] at held
      exact joined.ok _ m held
  · rcases side.eq_or side' with rfl | rfl
    · rw [here] at held
      cases held
      rw [there]
      exact met
    · rw [there] at held
      rw [side.other_other, here]
      have before := joined.met _ m held
      rw [side.other_other] at before
      cases old : k.ends side with
      | none =>
        rw [old] at before
        exact before.meet r.1
      | some m' =>
        rw [old] at before
        exact Received.grows before (grows m' old)
  · rcases side.eq_or side' with rfl | rfl
    · rw [here] at held
      cases held
      rw [there, move_sent]
      intro e found
      rcases mem_append.mp found with old | new
      · cases before : k.ends side' with
        | none =>
          rw [joined.silent side' before] at old
          cases old
        | some m' => exact (joined.told side' m' before e old).grows (grows m' before)
      · obtain ⟨s, sent, rfl⟩ := List.mem_map.mp new
        exact (good.2 s sent).told good.1.sending met
    · rw [there] at held
      rw [side.other_other, here, move_sent_other]
      intro e found
      have before := joined.told _ m held e found
      rw [side.other_other] at before
      cases old : k.ends side with
      | none =>
        rw [old] at before
        exact before.meet r.1
      | some m' =>
        rw [old] at before
        exact before.peer (grows m' old)
  · rcases side.eq_or side' with rfl | rfl
    · rw [here] at none
      cases none
    · rw [there] at none
      rw [move_sent_other]
      exact joined.silent _ none

theorem Joined.move_quiet (joined : Joined k) (held : k.ends side = some m) (good : Good r) (turn : Turn m r.1) (quiet : Quiet m r.1)
    (grows : Grows m r.1) : Joined (k.move side r) := by
  refine joined.move good (turn.orphan.trans (joined.ok side m held).2) ((joined.met side m held).quiet quiet) fun m' held' => ?_
  rw [held] at held'
  cases held'
  exact grows

theorem allocated_fresh : Fresh Conn.allocated := ⟨rfl, rfl, rfl, rfl, rfl, rfl, rfl⟩

theorem deliver_joined (joined : Joined k) {pos : Nat} {s : Segment} (sent : (pos, s) ∈ k.sent side.other) (now : Nat) (ip : BitVec 32) (iss : Seq)
    (l : Fin maxConn) (arrived : deliverTo now iss l pos { s with ip := ip } (k.ends side) = some r) : Joined (k.move side r) := by
  cases other : k.ends side.other with
  | none =>
    rw [joined.silent _ other] at sent
    cases sent
  | some p =>
    have told := joined.told _ p other _ sent
    rw [side.other_other] at told
    cases held : k.ends side with
    | none =>
      rw [held] at arrived told
      simp only [deliverTo] at arrived
      split at arrived
      next syn =>
        cases arrived
        refine joined.move (child_good allocated_fresh now iss l _) rfl ?_ fun m held' => ?_
        · rw [other]
          exact ⟨rfl, rfl, congrArg (· + 1) (told.syn syn.1).1⟩
        · rw [held] at held'
          cases held'
      · cases arrived
    | some m =>
      rw [held] at arrived told
      simp only [deliverTo] at arrived
      split at arrived
      next live =>
        cases arrived
        obtain ⟨ok, owned⟩ := joined.ok side m held
        have met := joined.met side m held
        have alive : Live m := ⟨live.2.2.1, live.2.1⟩
        have same : Told p (some m) pos { s with ip := ip } := ⟨told.data, told.fin, told.syn, told.acks⟩
        rw [other] at met
        refine joined.move (input_good now ok alive _) ((input_turn now alive _).orphan.trans owned) ?_ fun m' held' => ?_
        · rw [other]
          exact input_received now ok.sending owned alive met live.2.2.2 same
        · rw [held] at held'
          cases held'
          exact input_grows now m _
      · cases arrived

theorem endStep_joined (joined : Joined k) (e : LinkEvent) (moved : endStep (k.sent side.other) (k.ends side) e = some r) :
    Joined (k.move side r) := by
  cases e with
  | connect now leaves iss port ip dport =>
    cases held : k.ends side with
    | some m =>
      rw [held] at moved
      cases moved
    | none =>
      rw [held] at moved
      cases moved
      refine joined.move (connect_good allocated_fresh now leaves iss port ip dport) rfl ?_ fun m held' => ?_
      · cases k.ends side.other with
        | none => exact ⟨⟨rfl, rfl⟩, .inl rfl⟩
        | some p => exact ⟨rfl, rfl⟩
      · rw [held] at held'
        cases held'
  | deliver n now ip iss l =>
    simp only [endStep] at moved
    split at moved
    · cases moved
    next pos s found => exact deliver_joined joined (mem_of_getElem? found) now ip iss l moved
  | accept =>
    simp only [endStep] at moved
    split at moved
    · cases moved
    next m held =>
      split at moved
      · cases moved
        obtain ⟨ok, owned⟩ := joined.ok side m held
        have same : SameSender m { m with accepted := true } := ⟨rfl, rfl, rfl, rfl, rfl, rfl, id⟩
        have good : Good ({ m with accepted := true }, []) :=
          Conn.Ok.good ⟨same.sending rfl rfl ok.sending, same.pushed rfl rfl ok.pushed, ok.rx⟩
        have quiet : Quiet m { m with accepted := true } := ⟨rfl, rfl, rfl, .inl ⟨rfl, rfl⟩⟩
        refine joined.move good owned ((joined.met side m held).quiet quiet) fun m' held' => ?_
        rw [held] at held'
        cases held'
        exact grows_of_same rfl rfl rfl
      · cases moved
  | write now data =>
    obtain ⟨m, called, rfl⟩ := Option.map_eq_some_iff.mp moved
    have held := (Option.filter_eq_some_iff.mp called).1
    obtain ⟨ok, _⟩ := joined.ok side m held
    exact joined.move_quiet held (write_good now ok data) (write_turn now data m) (write_quiet now data m) (write_grows now ok data)
  | read len =>
    obtain ⟨m, called, rfl⟩ := Option.map_eq_some_iff.mp moved
    have held := (Option.filter_eq_some_iff.mp called).1
    obtain ⟨ok, _⟩ := joined.ok side m held
    exact joined.move_quiet held (read_good ok len) (read_turn len m) (read_quiet len m) (read_grows len m)
  | close now =>
    obtain ⟨m, called, rfl⟩ := Option.map_eq_some_iff.mp moved
    have held := (Option.filter_eq_some_iff.mp called).1
    obtain ⟨ok, _⟩ := joined.ok side m held
    have named := (joined.met side m held).named
    exact joined.move_quiet held (close_good now ok) (close_turn now m) (close_quiet now named) (close_grows now m)
  | tick now leaves =>
    obtain ⟨m, held, rfl⟩ := Option.map_eq_some_iff.mp moved
    obtain ⟨ok, owned⟩ := joined.ok side m held
    have named := (joined.met side m held).named
    exact joined.move_quiet held (tick_good now leaves ok) (tick_turn now leaves m) (tick_quiet now leaves named owned) (tick_grows now leaves m)

theorem idle_joined : Joined Link.idle := by
  have empty : ∀ side m, Link.idle.ends side ≠ some m := fun _ _ held => some_ne_none _ held.symm
  exact ⟨fun side m held => absurd held (empty side m), fun side m held => absurd held (empty side m),
    fun side m held => absurd held (empty side m), fun _ _ => rfl⟩

theorem linkRun_joined (events : List (Side × LinkEvent)) : Joined (linkRun events) := by
  unfold linkRun
  induction events using List.reverseRecOn with
  | nil => exact idle_joined
  | append_singleton events e ih =>
    rw [foldl_concat]
    generalize events.foldl linkStep Link.idle = k at ih ⊢
    unfold linkStep
    split
    · exact ih
    next r moved => exact endStep_joined ih e.2 moved

theorem read_ended {len : Nat} (excess : (tcpRead len m).2.2 = none) : m.rx = [] ∧ (phase m.state = .ended ∨ phase m.state = .closed) := by
  simp only [tcpRead] at excess
  split at excess
  next empty =>
    refine ⟨length_eq_zero_iff.mp empty, ?_⟩
    split at excess
    next state =>
      rcases state with state | state | state | state
      · rw [state]
        exact .inl rfl
      · rw [state]
        exact .inr rfl
      · rw [state]
        exact .inl rfl
      · rw [state]
        exact .inl rfl
    · cases excess
  · cases excess

theorem Conn.Ok.write_refused (ok : m.Ok) (fin : m.finSent = true) (now : Nat) (data : List UInt8) : (tcpWrite now data m).2.2 = none := by
  have state : ¬(m.state = .established ∨ m.state = .closeWait) := by
    intro flows
    rw [(ok.sending.flowing flows).fin] at fin
    cases fin
  simp only [tcpWrite]
  rw [if_pos (not_or.mp state)]

end

/-- The bytes read at a side are a beginning of the bytes written at the other, and a
connection that was open and not reset reports the end of the stream only when all of them
have been read, the other side has sent its FIN and accepts nothing more. -/
theorem stream_integrity (events : List (Side × LinkEvent)) (side : Side) :
    let k := linkRun events
    k.delivered side <+: k.written side.other ∧
      ∀ m len, k.ends side = some m → m.opened = true → m.reset = false → (tcpRead len m).2.2 = none →
        k.delivered side = k.written side.other ∧
          ∃ p, k.ends side.other = some p ∧ p.finSent = true ∧ ∀ now data, (tcpWrite now data p).2.2 = none := by
  have joined := linkRun_joined events
  generalize linkRun events = k at joined ⊢
  refine ⟨?_, fun m len held opened reset excess => ?_⟩
  · unfold Link.delivered Link.written
    cases held : k.ends side with
    | none => exact nil_prefix
    | some m =>
      have met := joined.met side m held
      have taken : m.delivered <+: got m := prefix_append _ _
      cases other : k.ends side.other with
      | none =>
        rw [other] at met
        exact taken.trans met.1.start
      | some p =>
        rw [other] at met
        exact taken.trans (Received.start met)
  · obtain ⟨empty, ended⟩ := read_ended excess
    have met := joined.met side m held
    cases other : k.ends side.other with
    | none =>
      rw [other] at met
      cases (met.1.whole opened reset ended).2
    | some p =>
      rw [other] at met
      obtain ⟨whole, fin⟩ := Received.whole met opened reset ended
      refine ⟨?_, p, rfl, fin, (joined.ok _ p other).1.write_refused fin⟩
      rw [got, empty, append_nil] at whole
      simp only [Link.delivered, Link.written, held, other, map_some, getD_some]
      exact whole

def threeBytes : List (Side × LinkEvent) :=
  [(.left, .connect 0 true 0xffffffff 49152 0 80), (.right, .deliver 0 1 0 7 0), (.left, .deliver 0 2 0 0 0), (.right, .deliver 1 3 0 0 0),
    (.left, .write 4 [1, 2, 3]), (.left, .close 5), (.right, .deliver 3 6 0 0 0), (.left, .tick 1000 true), (.right, .deliver 4 1001 0 0 0),
    (.right, .deliver 4 1002 0 0 0), (.right, .deliver 3 1003 0 0 0), (.right, .read 10)]

example : (linkRun threeBytes).delivered .right = [1, 2, 3] ∧
    ((linkRun threeBytes).ends .right).map (fun m => (m.opened, m.reset, (tcpRead 1 m).2.2)) = some (true, false, none) := by
  decide +kernel

end SecOS.Tcp
