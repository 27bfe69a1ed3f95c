import SecOS.Tlb

/-! What every step of the shootdown protocol keeps: a CPU that polls sees the request its flag
was raised for. A second poll of a CPU breaks it when it starts in the middle of the first. -/

namespace SecOS.Tlb
open Function (update_apply update_eq_self update_of_ne update_self)

/-- No translation of the call's pages on CPU `c` is older than the call. -/
def Clean (s : State) (c : Nat) (call : Call) : Prop :=
  ∀ page v, call.request.Covers page → s.tlb c call.request.pml4 page = some v → call.since page ≤ v

def CleanTo (s : State) (c : Nat) (call : Call) (i : Nat) : Prop :=
  ∀ j < i, ∀ v, s.tlb c call.request.pml4 ((call.request.page + j) % 2 ^ 52) = some v →
    call.since ((call.request.page + j) % 2 ^ 52) ≤ v

def Sound (s : State) (call : Call) : Prop :=
  (call.request.kernel = true ↔ call.request.pml4 = 0) ∧ ∀ page, call.since page ≤ s.table call.request.pml4 page

/-- Tables are only stored to, and a translation that appears is read from the tables. -/
structure Ages (s s' : State) : Prop where
  table : ∀ space page, s.table space page ≤ s'.table space page
  tlb : ∀ c space page v, s'.tlb c space page = some v → s.tlb c space page = some v ∨ s.table space page ≤ v

section
variable {k : Machine} {s s' : State} {c d : Nat} {call : Call}

theorem Clean.age (clean : Clean s c call) (sound : Sound s call) (ages : Ages s s') : Clean s' c call := by
  intro page v covered cached
  rcases ages.tlb c _ page v cached with before | fresh
  · exact clean page v covered before
  · exact Nat.le_trans (sound.2 page) fresh

variable {i : Nat}

theorem CleanTo.age (clean : CleanTo s c call i) (sound : Sound s call) (ages : Ages s s') : CleanTo s' c call i := by
  intro j below v cached
  rcases ages.tlb c _ _ v cached with before | fresh
  · exact clean j below v before
  · exact Nat.le_trans (sound.2 _) fresh

theorem Sound.age (sound : Sound s call) (ages : Ages s s') : Sound s' call :=
  ⟨sound.1, fun page => Nat.le_trans (sound.2 page) (ages.table _ page)⟩

def Pc.asks : Pc → Option Call
  | .marking call _ _ | .raise call | .waiting call _ => some call
  | _ => none

def asking (s : State) : Option Call := s.lock.bind fun h => (s.pc h).asks

/-- What is known where a CPU is in its code. -/
def CodeOk (s : State) (c : Nat) : Pc → Prop
  | .out => True
  | .localFlush call i => Sound s call ∧ CleanTo s c call i
  | .locking call => Sound s call ∧ Clean s c call
  | .publish call => Sound s call ∧ Clean s c call ∧ s.lock = some c ∧ ∀ d, s.pending d = false
  | .marking call i targets => Sound s call ∧ Clean s c call ∧ s.lock = some c ∧ s.req = call.request ∧
      (∀ d, s.pending d = true → 0 < targets) ∧ ∀ d < i, s.pending d = true ∨ Clean s d call
  | .raise call => Sound s call ∧ s.lock = some c ∧ s.req = call.request ∧ ∀ d, s.pending d = true ∨ Clean s d call
  | .waiting call i => Sound s call ∧ s.lock = some c ∧ s.req = call.request ∧
      (∀ d, s.pending d = true ∨ Clean s d call) ∧ ∀ d < i, s.pending d = false
  | .lower call | .unlocking call => Sound s call ∧ s.lock = some c ∧ (∀ d, Clean s d call) ∧ ∀ d, s.pending d = false
  | .returned call => Sound s call ∧ ∀ d, Clean s d call
  | .loadCr3 space _ => space ≠ 0 → s.activeCpus space c = true
  | .record space _ | .dropBit space _ => s.cr3 c = space

/-- Between the test and the clear of `tlb_pending`. -/
def Poll.busy : Poll → Bool
  | .out | .entered => false
  | _ => true

def PollOk (s : State) (c : Nat) : Poll → Prop
  | .out | .entered => True
  | .tested => s.pending c = true
  | .flushing r i => s.pending c = true ∧ r = s.req ∧ ∀ call, asking s = some call → CleanTo s c call i
  | .flushed => s.pending c = true ∧ ∀ call, asking s = some call → Clean s c call

structure Inv (k : Machine) (s : State) : Prop where
  filled : ∀ c space page v, s.tlb c space page = some v → k.runs c = true ∧ (space = 0 ∨ space = s.cr3 c)
  bits : ∀ c, s.cr3 c ≠ 0 → s.activeCpus (s.cr3 c) c = true
  code : ∀ c, CodeOk s c (s.pc c)
  up : ∀ d, s.pending d = true → k.runs d = true ∧ s.lock ≠ some d ∧ ∃ call, asking s = some call
  poll : ∀ c n, PollOk s c (s.polls c n)
  single : ∀ c n m, (s.polls c n).busy = true → (s.polls c m).busy = true → n = m
  deep : ∀ c n, k.contexts ≤ n → s.polls c n = .out

theorem Inv.asked (inv : Inv k s) (asks : asking s = some call) : Sound s call ∧ s.req = call.request := by
  unfold asking at asks
  obtain ⟨h, _, asks⟩ := Option.bind_eq_some_iff.mp asks
  have ok := inv.code h
  cases at_h : s.pc h with
  | marking call' i targets =>
    rw [at_h] at ok asks
    obtain rfl := Option.some.inj asks
    exact ⟨ok.1, ok.2.2.2.1⟩
  | raise call' =>
    rw [at_h] at ok asks
    obtain rfl := Option.some.inj asks
    exact ⟨ok.1, ok.2.2.1⟩
  | waiting call' i =>
    rw [at_h] at ok asks
    obtain rfl := Option.some.inj asks
    exact ⟨ok.1, ok.2.2.1⟩
  | _ => rw [at_h] at asks; exact nomatch asks

variable {p : Poll}

theorem PollOk.frame (inv : Inv k s) (ok : PollOk s c p) (ages : Ages s s')
    (kept : s.pending c = true → s'.pending c = true ∧ s'.req = s.req ∧ asking s' = asking s) : PollOk s' c p := by
  cases p with
  | out => trivial
  | entered => trivial
  | tested => exact (kept ok).1
  | flushing r i =>
    obtain ⟨raised, same, asks⟩ := kept ok.1
    refine ⟨raised, ok.2.1.trans same.symm, fun call asked => ?_⟩
    rw [asks] at asked
    exact (ok.2.2 call asked).age (inv.asked asked).1 ages
  | flushed =>
    obtain ⟨raised, same, asks⟩ := kept ok.1
    refine ⟨raised, fun call asked => ?_⟩
    rw [asks] at asked
    exact (ok.2 call asked).age (inv.asked asked).1 ages

variable {pc : Pc}

/-- Nor is code that another CPU's step leaves its CR3, its bits and, while it holds the
lock, its request and its flags. A flag that goes down leaves its CPU clean. -/
theorem CodeOk.frame (ok : CodeOk s d pc) (ages : Ages s s') (cr3 : s'.cr3 d = s.cr3 d)
    (bits : ∀ space, s'.activeCpus space d = s.activeCpus space d)
    (held : s.lock = some d → s'.lock = some d ∧ s'.req = s.req ∧ (∀ e, s'.pending e = true → s.pending e = true) ∧
      ∀ call, pc.asks = some call → ∀ e, s.pending e = true → s'.pending e = true ∨ Clean s' e call) : CodeOk s' d pc := by
  have down : s.lock = some d → ∀ e, s.pending e = false → s'.pending e = false := by
    intro mine e low
    by_contra raised
    rw [(held mine).2.2.1 e (eq_true_of_ne_false raised)] at low
    exact nomatch low
  have either : ∀ call, pc.asks = some call → s.lock = some d → Sound s call → ∀ e, s.pending e = true ∨ Clean s e call →
      s'.pending e = true ∨ Clean s' e call := by
    intro call asks mine sound e before
    rcases before with raised | clean
    · exact (held mine).2.2.2 call asks e raised
    · exact .inr (clean.age sound ages)
  cases pc with
  | out => trivial
  | localFlush call i => exact ⟨ok.1.age ages, ok.2.age ok.1 ages⟩
  | locking call => exact ⟨ok.1.age ages, ok.2.age ok.1 ages⟩
  | publish call =>
    obtain ⟨sound, clean, mine, low⟩ := ok
    exact ⟨sound.age ages, clean.age sound ages, (held mine).1, fun e => down mine e (low e)⟩
  | marking call i targets =>
    obtain ⟨sound, clean, mine, same, counted, marked⟩ := ok
    exact ⟨sound.age ages, clean.age sound ages, (held mine).1, (held mine).2.1.trans same,
      fun e raised => counted e ((held mine).2.2.1 e raised), fun e below => either call rfl mine sound e (marked e below)⟩
  | raise call =>
    obtain ⟨sound, mine, same, marked⟩ := ok
    exact ⟨sound.age ages, (held mine).1, (held mine).2.1.trans same, fun e => either call rfl mine sound e (marked e)⟩
  | waiting call i =>
    obtain ⟨sound, mine, same, marked, low⟩ := ok
    exact ⟨sound.age ages, (held mine).1, (held mine).2.1.trans same, fun e => either call rfl mine sound e (marked e),
      fun e below => down mine e (low e below)⟩
  | lower call =>
    obtain ⟨sound, mine, clean, low⟩ := ok
    exact ⟨sound.age ages, (held mine).1, fun e => (clean e).age sound ages, fun e => down mine e (low e)⟩
  | unlocking call =>
    obtain ⟨sound, mine, clean, low⟩ := ok
    exact ⟨sound.age ages, (held mine).1, fun e => (clean e).age sound ages, fun e => down mine e (low e)⟩
  | returned call => exact ⟨ok.1.age ages, fun e => (ok.2 e).age ok.1 ages⟩
  | loadCr3 space old => exact fun user => (bits space).trans (ok user)
  | record space old => exact cr3.trans ok
  | dropBit space old => exact cr3.trans ok

/-- A step of the code of CPU `c`. It raises flags only for its own call and never lowers one. -/
theorem Inv.advance (inv : Inv k s) (ages : Ages s s') (polls : s'.polls = s.polls)
    (filled : ∀ c space page v, s'.tlb c space page = some v → k.runs c = true ∧ (space = 0 ∨ space = s'.cr3 c))
    (bits : ∀ c, s'.cr3 c ≠ 0 → s'.activeCpus (s'.cr3 c) c = true)
    (others : ∀ d, d ≠ c → s'.pc d = s.pc d ∧ s'.cr3 d = s.cr3 d ∧ ∀ space, s'.activeCpus space d = s.activeCpus space d)
    (here : CodeOk s' c (s'.pc c))
    (held : ∀ d, d ≠ c → s.lock = some d → s'.lock = some d ∧ s'.req = s.req ∧ s'.pending = s.pending)
    (up : ∀ d, s'.pending d = true → k.runs d = true ∧ s'.lock ≠ some d ∧ ∃ call, asking s' = some call)
    (kept : ∀ d, s.pending d = true → s'.pending d = true ∧ s'.req = s.req ∧ asking s' = asking s) : Inv k s' := by
  refine ⟨filled, bits, ?_, up, fun d n => ?_, by rw [polls]; exact inv.single, by rw [polls]; exact inv.deep⟩
  · intro d
    by_cases same : d = c
    · exact same ▸ here
    · obtain ⟨pc, cr3, active⟩ := others d same
      rw [pc]
      refine (inv.code d).frame ages cr3 active fun mine => ?_
      obtain ⟨lock, req, pending⟩ := held d same mine
      rw [pending]
      exact ⟨lock, req, fun _ raised => raised, fun _ _ _ raised => .inl raised⟩
  · rw [polls]
    exact (inv.poll d n).frame inv ages (kept d)

/-- Translations are dropped, and nothing else changes. -/
def Drops (s s' : State) : Prop :=
  ∃ tlb, s' = { s with tlb := tlb } ∧ ∀ d space page v, tlb d space page = some v → s.tlb d space page = some v

theorem Drops.ages (drops : Drops s s') : Ages s s' := by
  obtain ⟨tlb, rfl, fewer⟩ := drops
  exact ⟨fun _ _ => Nat.le_refl _, fun d space page v cached => .inl (fewer d space page v cached)⟩

theorem flushLocal_spec (inv : Inv k s) (sound : Sound s call) (clean : CleanTo s c call i) :
    Drops s (flushLocal s c call.request i).1 ∧
      match (flushLocal s c call.request i).2 with
      | true => Clean (flushLocal s c call.request i).1 c call
      | false => CleanTo (flushLocal s c call.request i).1 c call (i + 1) := by
  unfold flushLocal
  split
  next elsewhere =>
    -- The space is not loaded here, so nothing of it is cached.
    simp only [Bool.and_eq_true, Bool.not_eq_true', bne_iff_ne, ne_eq] at elsewhere
    refine ⟨⟨s.tlb, rfl, fun _ _ _ _ cached => cached⟩, fun page v _ cached => ?_⟩
    rcases (inv.filled c _ page v cached).2 with half | loaded
    · rw [sound.1.mpr half] at elsewhere
      exact nomatch elsewhere.1
    · exact absurd loaded.symm elsewhere.2
  · split
    · refine ⟨⟨(s.writeCr3 c (s.cr3 c)).tlb, ?_, ?_⟩, ?_⟩
      · simp only [State.writeCr3, update_eq_self]
      · intro d space page v cached
        by_cases same : d = c
        · subst same
          simp only [State.writeCr3, update_self] at cached
          exact nomatch cached
        · simpa only [State.writeCr3, update_of_ne same] using cached
      · intro page v _ cached
        simp only [State.writeCr3, update_self] at cached
        exact nomatch cached
    next few =>
      split
      · have fewer : ∀ d space page v, (s.invlpg c ((call.request.page + i) % 2 ^ 52)).tlb d space page = some v →
            s.tlb d space page = some v ∧ ¬(d = c ∧ page = (call.request.page + i) % 2 ^ 52) := by
          intro d space page v cached
          by_cases same : d = c
          · subst same
            simp only [State.invlpg, update_self] at cached
            by_cases hit : page = (call.request.page + i) % 2 ^ 52
            · rw [hit, update_self] at cached
              exact nomatch cached
            · rw [update_of_ne hit] at cached
              exact ⟨cached, fun both => hit both.2⟩
          · simp only [State.invlpg, update_of_ne same] at cached
            exact ⟨cached, fun both => same both.1⟩
        refine ⟨⟨_, rfl, fun d space page v cached => (fewer d space page v cached).1⟩, fun j below v cached => ?_⟩
        obtain ⟨before, other⟩ := fewer _ _ _ _ cached
        rcases Nat.lt_succ_iff_lt_or_eq.mp below with earlier | rfl
        · exact clean j earlier v before
        · exact absurd ⟨rfl, rfl⟩ other
      · refine ⟨⟨s.tlb, rfl, fun _ _ _ _ cached => cached⟩, fun page v covered cached => ?_⟩
        rcases covered with all | ⟨low, high, real⟩
        · exact absurd (.inl all) few
        · have here : (call.request.page + (page - call.request.page)) % 2 ^ 52 = page := by
            rw [Nat.add_sub_cancel' low, Nat.mod_eq_of_lt real]
          have reached := clean (page - call.request.page) (by omega) v
          rw [here] at reached
          exact reached cached

theorem Ages.same (table : s'.table = s.table) (tlb : s'.tlb = s.tlb) : Ages s s' := by
  refine ⟨fun space page => ?_, fun d space page v cached => .inl ?_⟩
  · exact Nat.le_of_eq (by rw [table])
  · rwa [tlb] at cached

theorem setPc_self : (s.setPc c pc).pc c = pc := update_self ..

theorem setPc_other (other : d ≠ c) : (s.setPc c pc).pc d = s.pc d := update_of_ne other _ _

theorem asking_setPc (same : pc.asks = (s.pc c).asks) : asking (s.setPc c pc) = asking s := by
  unfold asking
  congr 1
  funext h
  by_cases here : h = c
  · subst here
    rw [← same]
    rw [setPc_self]
  · rw [setPc_other here]

section
variable (inv : Inv k s)
include inv

/-- Steps that move the code of CPU `c` and touch neither the flags nor a TLB: the flags
are down, or the call that asks stays the same. -/
theorem Inv.move {space : Nat → Nat} {req : Request} {inflight : Bool} {lock : Option Nat}
    (here : CodeOk ({ s with activeSpace := space, req := req, inflight := inflight, lock := lock }.setPc c pc) c pc)
    (held : ∀ d, d ≠ c → s.lock = some d → lock = some d ∧ req = s.req)
    (calm : (∀ d, s.pending d = false) ∨ (lock = s.lock ∧ req = s.req ∧ pc.asks = (s.pc c).asks)) :
    Inv k ({ s with activeSpace := space, req := req, inflight := inflight, lock := lock }.setPc c pc) := by
  refine inv.advance (c := c) (.same rfl rfl) rfl inv.filled inv.bits (fun d other => ⟨setPc_other other, rfl, fun _ => rfl⟩) ?_ ?_ ?_ ?_
  · rwa [setPc_self]
  · exact fun d other mine => ⟨(held d other mine).1, (held d other mine).2, rfl⟩
  · intro d up
    rcases calm with low | ⟨rfl, rfl, asks⟩
    · exact nomatch (low d).symm.trans up
    · rw [asking_setPc (s := { s with activeSpace := space, inflight := inflight }) asks]
      exact inv.up d up
  · intro d up
    rcases calm with low | ⟨rfl, rfl, asks⟩
    · exact nomatch (low d).symm.trans up
    · exact ⟨up, rfl, asking_setPc (s := { s with activeSpace := space, inflight := inflight }) asks⟩

theorem Inv.goto {space : Nat → Nat} {inflight : Bool} (asks : pc.asks = (s.pc c).asks)
    (here : CodeOk ({ s with activeSpace := space, inflight := inflight }.setPc c pc) c pc) :
    Inv k ({ s with activeSpace := space, inflight := inflight }.setPc c pc) :=
  inv.move here (fun _ _ held => ⟨held, rfl⟩) (.inr ⟨rfl, rfl, asks⟩)

theorem Inv.parked (off : k.runs d = false) : Clean s d call := by
  intro page v _ cached
  rw [(inv.filled d _ page v cached).1] at off
  exact nomatch off

theorem Inv.drop (drops : Drops s s') (asks : pc.asks = (s.pc c).asks) (here : CodeOk s' c pc) :
    Inv k (s'.setPc c pc) := by
  obtain ⟨tlb, rfl, fewer⟩ := drops
  have asked : asking ({ s with tlb := tlb }.setPc c pc) = asking s := asking_setPc (s := { s with tlb := tlb }) asks
  refine inv.advance (c := c) ?_ rfl ?_ inv.bits ?_ ?_ ?_ ?_ ?_
  · exact ⟨fun _ _ => Nat.le_refl _, fun d space page v cached => .inl (fewer d space page v cached)⟩
  · exact fun d space page v cached => inv.filled d space page v (fewer d space page v cached)
  · exact fun d other => ⟨setPc_other (s := s) other, rfl, fun _ => rfl⟩
  · rw [setPc_self]
    exact here
  · exact fun d _ mine => ⟨mine, rfl, rfl⟩
  · intro d up
    rw [asked]
    exact inv.up d up
  · exact fun d up => ⟨up, rfl, asked⟩

theorem Inv.localFlush (runs : k.runs c = true) (at_c : s.pc c = .localFlush call i)
    (taken : codeStep k s c (.localFlush call i) = some s') : Inv k s' := by
  have ok : Sound s call ∧ CleanTo s c call i := by
    have ok := inv.code c
    rwa [at_c] at ok
  obtain ⟨drops, reached⟩ := flushLocal_spec inv ok.1 ok.2
  simp only [codeStep] at taken
  generalize flushLocal s c call.request i = result at taken drops reached
  obtain ⟨t, done⟩ := result
  have silent : ∀ pc : Pc, pc.asks = none → pc.asks = (s.pc c).asks := by
    intro pc silent
    rw [silent, at_c]
    rfl
  have sound : Sound t call := ok.1.age drops.ages
  cases done with
  | false =>
    cases taken
    exact inv.drop drops (silent _ rfl) ⟨sound, reached⟩
  | true =>
    cases taken
    split
    · refine inv.drop drops (silent _ rfl) ⟨sound, fun d => ?_⟩
      by_cases same : d = c
      · exact same ▸ reached
      · -- There is no other CPU.
        simp only [Machine.runs, Bool.and_eq_true, decide_eq_true_eq] at runs
        refine Clean.age (inv.parked ?_) ok.1 drops.ages
        simp only [Machine.runs, Bool.and_eq_false_iff, decide_eq_false_iff_not]
        exact .inl (by omega)
    · exact inv.drop drops (silent _ rfl) ⟨sound, reached⟩

theorem Inv.marking {targets : Nat} (at_c : s.pc c = .marking call i targets)
    (taken : codeStep k s c (.marking call i targets) = some s') : Inv k s' := by
  have ok : CodeOk s c (.marking call i targets) := at_c ▸ inv.code c
  obtain ⟨sound, clean, mine, same, counted, marked⟩ := ok
  have asks : asking s = some call := by
    unfold asking
    rw [mine, Option.bind_some, at_c]
    rfl
  simp only [codeStep] at taken
  split at taken
  next more =>
    split at taken
    next skip =>
      cases taken
      refine inv.goto (at_c ▸ rfl) ⟨sound, clean, mine, same, counted, fun d below => ?_⟩
      rcases Nat.lt_succ_iff_lt_or_eq.mp below with earlier | rfl
      · exact marked d earlier
      · rcases skip with rfl | off | ⟨user, inactive⟩
        · exact .inr clean
        · exact .inr (inv.parked (by rw [Machine.runs, off, Bool.and_false]))
        · -- Its bit is down, so its CR3 holds another space.
          refine .inr fun page v _ cached => ?_
          rcases (inv.filled d _ page v cached).2 with half | loaded
          · rw [sound.1.mpr half] at user
            exact nomatch user
          · have bit := inv.bits d
            rw [← loaded, inactive] at bit
            exact absurd (bit fun half => by rw [sound.1.mpr half] at user; exact nomatch user) (by decide)
    next target =>
      cases taken
      rw [not_or, not_or] at target
      have raised : ∀ d, (s.setPending i true).pending d = true → d = i ∨ s.pending d = true := by
        intro d up
        by_cases here : d = i
        · exact .inl here
        · exact .inr ((update_of_ne here _ _).symm.trans up)
      have stays : ∀ d, s.pending d = true → (s.setPending i true).pending d = true := by
        intro d up
        by_cases here : d = i
        · subst here
          exact update_self ..
        · exact (update_of_ne here _ _).trans up
      have asked : asking ((s.setPending i true).setPc c (.marking call (i + 1) (targets + 1))) = asking s :=
        asking_setPc (s := s.setPending i true) (show _ = (s.pc c).asks by rw [at_c]; rfl)
      refine inv.advance (c := c) (.same rfl rfl) rfl inv.filled inv.bits
        (fun d other => ⟨setPc_other other, rfl, fun _ => rfl⟩) ?_ ?_ ?_ fun d up => ⟨stays d up, rfl, asked⟩
      · rw [setPc_self]
        refine ⟨sound, clean, mine, same, fun _ _ => Nat.succ_pos _, fun d below => ?_⟩
        rcases Nat.lt_succ_iff_lt_or_eq.mp below with earlier | rfl
        · exact (marked d earlier).imp_left (stays d)
        · exact .inl (update_self ..)
      · intro d other held
        exact absurd (Option.some.inj (held.symm.trans mine)) other
      · intro d up
        rw [asked, asks]
        refine ⟨?_, ?_, call, rfl⟩
        · rcases raised d up with rfl | before
          · rw [Machine.runs, eq_true_of_ne_false target.2.1, decide_eq_true more]
            rfl
          · exact (inv.up d before).1
        · intro held
          rcases raised d up with rfl | before
          · exact target.1 (Option.some.inj (held.symm.trans mine))
          · exact (inv.up d before).2.1 held
  · cases taken
    have all : ∀ d, s.pending d = true ∨ Clean s d call := by
      intro d
      by_cases within : d < i
      · exact marked d within
      · refine .inr (inv.parked ?_)
        rw [Machine.runs, decide_eq_false (by omega), Bool.false_and]
    split
    · have low : ∀ d, s.pending d = false := by
        intro d
        by_contra up
        exact absurd (counted d (eq_true_of_ne_false up)) (by omega)
      refine inv.move ⟨sound, mine, fun d => ?_, low⟩ (fun d other held => ⟨held, rfl⟩) (.inl low)
      rcases all d with up | clean
      · rw [low d] at up
        exact nomatch up
      · exact clean
    · exact inv.goto (at_c ▸ rfl) ⟨sound, mine, same, all⟩

theorem Inv.low (silent : asking s = none) (d : Nat) : s.pending d = false := by
  by_contra up
  obtain ⟨call, asks⟩ := (inv.up d (eq_true_of_ne_false up)).2.2
  rw [silent] at asks
  exact nomatch asks

theorem Inv.loadCr3 {space old : Nat} (at_c : s.pc c = .loadCr3 space old)
    (marked : space ≠ 0 → s.activeCpus space c = true) : Inv k ((s.writeCr3 c space).setPc c (.record space old)) := by
  have dropped : ∀ d half page v, (s.writeCr3 c space).tlb d half page = some v → d ≠ c ∧ s.tlb d half page = some v := by
    intro d half page v cached
    by_cases same : d = c
    · subst same
      simp only [State.writeCr3, update_self] at cached
      exact nomatch cached
    · exact ⟨same, by simpa only [State.writeCr3, update_of_ne same] using cached⟩
  have cr3 : ∀ d, d ≠ c → (s.writeCr3 c space).cr3 d = s.cr3 d := fun d other => update_of_ne other _ _
  have asked : asking ((s.writeCr3 c space).setPc c (.record space old)) = asking s :=
    asking_setPc (s := s.writeCr3 c space) (show _ = (s.pc c).asks by rw [at_c]; rfl)
  refine inv.advance (c := c) ⟨fun _ _ => Nat.le_refl _, fun d half page v cached => .inl (dropped d half page v cached).2⟩ rfl ?_ ?_
    (fun d other => ⟨setPc_other other, cr3 d other, fun _ => rfl⟩) ?_ (fun d _ held => ⟨held, rfl, rfl⟩) ?_ fun d up => ⟨up, rfl, asked⟩
  · intro d half page v cached
    obtain ⟨other, before⟩ := dropped d half page v cached
    rw [show ((s.writeCr3 c space).setPc c (.record space old)).cr3 d = s.cr3 d from cr3 d other]
    exact inv.filled d half page v before
  · intro d user
    by_cases same : d = c
    · subst same
      have loaded : (s.writeCr3 d space).cr3 d = space := update_self ..
      change (s.writeCr3 d space).cr3 d ≠ 0 at user
      change s.activeCpus ((s.writeCr3 d space).cr3 d) d = true
      rw [loaded] at user ⊢
      exact marked user
    · change (s.writeCr3 c space).cr3 d ≠ 0 at user
      change s.activeCpus ((s.writeCr3 c space).cr3 d) d = true
      rw [cr3 d same] at user ⊢
      exact inv.bits d user
  · rw [setPc_self]
    exact update_self ..
  · intro d up
    rw [asked]
    exact inv.up d up

theorem Inv.setActive {space : Nat} {value : Bool} (asks : pc.asks = (s.pc c).asks)
    (loaded : space = s.cr3 c → value = true) (here : CodeOk (s.setActive space c value) c pc) :
    Inv k ((s.setActive space c value).setPc c pc) := by
  have other : ∀ d, d ≠ c → ∀ half, (s.setActive space c value).activeCpus half d = s.activeCpus half d := by
    intro d other half
    by_cases same : half = space
    · subst same
      simp only [State.setActive, update_self, update_of_ne other]
    · simp only [State.setActive, update_of_ne same]
  have asked : asking ((s.setActive space c value).setPc c pc) = asking s := asking_setPc (s := s.setActive space c value) asks
  refine inv.advance (c := c) (.same rfl rfl) rfl inv.filled ?_ (fun d apart => ⟨setPc_other apart, rfl, other d apart⟩) ?_
    (fun d _ held => ⟨held, rfl, rfl⟩) ?_ fun d up => ⟨up, rfl, asked⟩
  · intro d user
    have before := inv.bits d user
    change (s.setActive space c value).activeCpus (s.cr3 d) d = true
    by_cases same : d = c
    · subst same
      by_cases here : s.cr3 d = space
      · rw [here]
        simp only [State.setActive, update_self]
        exact loaded here.symm
      · simpa only [State.setActive, update_of_ne here] using before
    · rw [other d same]
      exact before
  · rw [setPc_self]
    exact here
  · intro d up
    rw [asked]
    exact inv.up d up

theorem codeStep_inv (runs : k.runs c = true) (taken : codeStep k s c (s.pc c) = some s') : Inv k s' := by
  have ok := inv.code c
  cases at_c : s.pc c with
  | out =>
    rw [at_c] at taken
    exact nomatch taken
  | localFlush call i => exact inv.localFlush runs at_c (at_c ▸ taken)
  | locking call =>
    rw [at_c] at taken ok
    obtain ⟨free, ⟨⟩⟩ := Option.ite_none_right_eq_some.mp taken
    have low := inv.low (by rw [asking, free]; rfl)
    exact inv.move ⟨ok.1, ok.2, rfl, low⟩
      (fun d other held => nomatch free.symm.trans held) (.inl low)
  | publish call =>
    rw [at_c] at taken ok
    obtain ⟨sound, clean, mine, low⟩ := ok
    cases taken
    refine inv.move ⟨sound, clean, mine, rfl, fun d up => ?_, fun d below => nomatch below⟩
      (fun d other held => absurd (Option.some.inj (held.symm.trans mine)) other) (.inl low)
    exact nomatch (low d).symm.trans up
  | marking call i targets => exact inv.marking at_c (at_c ▸ taken)
  | raise call =>
    rw [at_c] at taken ok
    obtain ⟨sound, mine, same, all⟩ := ok
    cases taken
    exact inv.goto (by rw [at_c]; rfl) ⟨sound, mine, same, all, fun d below => nomatch below⟩
  | waiting call i =>
    rw [at_c] at taken ok
    obtain ⟨sound, mine, same, all, low⟩ := ok
    simp only [codeStep] at taken
    split at taken
    · cases taken
      refine inv.goto (by rw [at_c]; rfl) ⟨sound, mine, same, all, fun d below => ?_⟩
      split at below
      · exact nomatch below
      next seen =>
        rcases Nat.lt_succ_iff_lt_or_eq.mp below with earlier | rfl
        · exact low d earlier
        · by_contra up
          have up := eq_true_of_ne_false up
          by_cases self : d = c
          · exact (inv.up d up).2.1 (self ▸ mine)
          · exact seen ⟨self, up⟩
    · cases taken
      have down : ∀ d, s.pending d = false := by
        intro d
        by_contra up
        have on := (inv.up d (eq_true_of_ne_false up)).1
        simp only [Machine.runs, Bool.and_eq_true, decide_eq_true_eq] at on
        exact up (low d (by omega))
      refine inv.move ⟨sound, mine, fun d => ?_, down⟩ (fun d other held => ⟨held, rfl⟩) (.inl down)
      rcases all d with up | clean
      · exact nomatch (down d).symm.trans up
      · exact clean
  | lower call =>
    rw [at_c] at taken ok
    cases taken
    exact inv.move ok (fun d other held => ⟨held, rfl⟩) (.inl ok.2.2.2)
  | unlocking call =>
    rw [at_c] at taken ok
    obtain ⟨sound, mine, clean, low⟩ := ok
    cases taken
    exact inv.move ⟨sound, clean⟩
      (fun d other held => absurd (Option.some.inj (held.symm.trans mine)) other) (.inl low)
  | returned call =>
    rw [at_c] at taken
    cases taken
    exact inv.goto (by rw [at_c]; rfl) trivial
  | loadCr3 space old =>
    rw [at_c] at taken ok
    cases taken
    exact inv.loadCr3 at_c ok
  | record space old =>
    rw [at_c] at taken ok
    cases taken
    exact inv.goto (by rw [at_c]; rfl) ok
  | dropBit space old =>
    rw [at_c] at taken ok
    simp only [codeStep] at taken
    split at taken
    next apart =>
      cases taken
      refine inv.setActive (by rw [at_c]; rfl) (fun loaded => ?_) trivial
      exact absurd (loaded.trans ok) apart.1
    · cases taken
      exact inv.goto (by rw [at_c]; rfl) trivial

/-- What one access of a poll on CPU `c` leaves of the invariant: everything but the
places in the polls of that CPU. -/
structure Polled (k : Machine) (s s' : State) (c : Nat) : Prop where
  filled : ∀ c space page v, s'.tlb c space page = some v → k.runs c = true ∧ (space = 0 ∨ space = s'.cr3 c)
  bits : ∀ c, s'.cr3 c ≠ 0 → s'.activeCpus (s'.cr3 c) c = true
  code : ∀ c, CodeOk s' c (s'.pc c)
  up : ∀ d, s'.pending d = true → k.runs d = true ∧ s'.lock ≠ some d ∧ ∃ call, asking s' = some call
  others : ∀ d p, d ≠ c → PollOk s d p → PollOk s' d p
  polls : s'.polls = s.polls

theorem Inv.polled_drop (drops : Drops s s') : Polled k s s' c := by
  have ages := drops.ages
  obtain ⟨tlb, rfl, fewer⟩ := drops
  refine ⟨fun d space page v cached => inv.filled d space page v (fewer d space page v cached), inv.bits, fun d => ?_, inv.up, ?_, rfl⟩
  · refine (inv.code d).frame ages rfl (fun _ => rfl) fun mine => ⟨mine, rfl, fun _ up => up, fun _ _ _ up => .inl up⟩
  · exact fun d p _ ok => ok.frame inv ages fun up => ⟨up, rfl, rfl⟩

theorem Inv.polled_clear (clean : ∀ call, asking s = some call → Clean s c call) : Polled k s (s.setPending c false) c := by
  have fewer : ∀ d, (s.setPending c false).pending d = true → d ≠ c ∧ s.pending d = true := by
    intro d up
    by_cases same : d = c
    · subst same
      rw [show (s.setPending d false).pending d = false from update_self ..] at up
      exact nomatch up
    · exact ⟨same, (update_of_ne same _ _).symm.trans up⟩
  refine ⟨inv.filled, inv.bits, fun d => ?_, fun d up => inv.up d (fewer d up).2, ?_, rfl⟩
  · refine (inv.code d).frame (.same rfl rfl) rfl (fun _ => rfl) fun mine => ⟨mine, rfl, fun e up => (fewer e up).2, ?_⟩
    intro call asks e up
    by_cases same : e = c
    · subst same
      refine .inr (clean call ?_)
      rw [asking, mine]
      exact asks
    · exact .inl ((update_of_ne same _ _).trans up)
  · exact fun d p other ok => ok.frame inv (.same rfl rfl) fun up => ⟨(update_of_ne other _ _).trans up, rfl, rfl⟩

theorem pollStep_polled (ok : PollOk s c p) :
    Polled k s (pollStep s c p).1 c ∧ PollOk (pollStep s c p).1 c (pollStep s c p).2 := by
  have idle : Polled k s s c := inv.polled_drop ⟨s.tlb, rfl, fun _ _ _ _ cached => cached⟩
  cases p with
  | out => exact ⟨idle, trivial⟩
  | entered =>
    refine ⟨idle, ?_⟩
    simp only [pollStep]
    split
    next up => exact up
    · trivial
  | tested => exact ⟨idle, ok, rfl, fun _ _ j below => nomatch below⟩
  | flushing r i =>
    obtain ⟨up, rfl, reached⟩ := ok
    obtain ⟨call, asks⟩ := (inv.up c up).2.2
    obtain ⟨sound, same⟩ := inv.asked asks
    obtain ⟨drops, spec⟩ := flushLocal_spec inv sound (reached call asks)
    rw [← same] at drops spec
    simp only [pollStep]
    generalize flushLocal s c s.req i = result at drops spec
    obtain ⟨t, done⟩ := result
    have polled : Polled k s t c := inv.polled_drop drops
    have asked : ∀ other, asking t = some other → other = call := by
      obtain ⟨tlb, rfl, _⟩ := drops
      exact fun other found => (Option.some.inj (asks.symm.trans found)).symm
    have kept : t.pending c = true ∧ s.req = t.req := by
      obtain ⟨tlb, rfl, _⟩ := drops
      exact ⟨up, rfl⟩
    cases done with
    | true => exact ⟨polled, kept.1, fun other found => asked other found ▸ spec⟩
    | false => exact ⟨polled, kept.1, kept.2, fun other found => asked other found ▸ spec⟩
  | flushed => exact ⟨inv.polled_clear ok.2, trivial⟩

end

/-- No poll starts on a CPU between the test and the clear of another one of that CPU. -/
def Unnested (k : Machine) (s : State) : Action → Prop
  | .poll c n => (s.polls c n).busy = false → (s.polls c n).isOut = false → ∀ m < k.contexts, m ≠ n → (s.polls c m).busy = false
  | _ => True

instance : (a : Action) → Decidable (Unnested k s a)
  | .poll c n => inferInstanceAs
      (Decidable ((s.polls c n).busy = false → (s.polls c n).isOut = false → ∀ m < k.contexts, m ≠ n → (s.polls c m).busy = false))
  | .store .. | .fill .. | .shootdown .. | .switchSpace .. | .code _ | .preempt .. => inferInstanceAs (Decidable True)

theorem pollOk_idle (idle : p.busy = false) : PollOk s c p := by
  cases p with
  | out => trivial
  | entered => trivial
  | _ => cases idle

/-- A poll that is not just starting is the only busy one of its CPU. -/
theorem Inv.alone {n m : Nat} (inv : Inv k s) (quiet : Unnested k s (.poll c n)) (started : (s.polls c n).isOut = false) (other : m ≠ n) :
    (s.polls c m).busy = false := by
  cases busy : (s.polls c n).busy with
  | true =>
    by_contra both
    exact other (inv.single c m n (eq_true_of_ne_false both) busy)
  | false =>
    by_cases inside : m < k.contexts
    · exact quiet busy started m inside other
    · rw [inv.deep c m (Nat.le_of_not_lt inside)]
      rfl

theorem Polled.inv {t : State} {n : Nat} (polled : Polled k s t c) (inv : Inv k s) (here : PollOk t c p) (inside : n < k.contexts)
    (others : ∀ m, m ≠ n → PollOk t c (s.polls c m)) (alone : p.busy = true → ∀ m, m ≠ n → (s.polls c m).busy = false) :
    Inv k (t.setPoll c n p) := by
  have own : (t.setPoll c n p).polls c n = p := by simp only [State.setPoll, update_self]
  have same : ∀ m, m ≠ n → (t.setPoll c n p).polls c m = s.polls c m := by
    intro m other
    simp only [State.setPoll, update_self, update_of_ne other, polled.polls]
  have apart : ∀ d, d ≠ c → (t.setPoll c n p).polls d = s.polls d := by
    intro d other
    simp only [State.setPoll, update_of_ne other, polled.polls]
  refine ⟨polled.filled, polled.bits, polled.code, polled.up, fun d m => ?_, fun d m m' => ?_, fun d m high => ?_⟩
  all_goals by_cases at_c : d = c
  · subst at_c
    by_cases at_n : m = n
    · rw [at_n, own]
      exact here
    · rw [same m at_n]
      exact others m at_n
  · rw [apart d at_c]
    exact polled.others d _ at_c (inv.poll d m)
  · subst at_c
    by_cases at_n : m = n <;> by_cases at_n' : m' = n
    · exact fun _ _ => at_n.trans at_n'.symm
    · rw [at_n, own, same m' at_n']
      intro busy busy'
      rw [alone busy m' at_n'] at busy'
      cases busy'
    · rw [at_n', own, same m at_n]
      intro busy busy'
      rw [alone busy' m at_n] at busy
      cases busy
    · rw [same m at_n, same m' at_n']
      exact inv.single d m m'
  · rw [apart d at_c]
    exact inv.single d m m'
  · subst at_c
    rw [same m (by omega)]
    exact inv.deep d m high
  · rw [apart d at_c]
    exact inv.deep d m high

theorem Inv.pollStep {n : Nat} (inv : Inv k s) (quiet : Unnested k s (.poll c n)) (inside : n < k.contexts) :
    Inv k ((pollStep s c (s.polls c n)).1.setPoll c n (pollStep s c (s.polls c n)).2) := by
  obtain ⟨polled, here⟩ := pollStep_polled inv (inv.poll c n)
  cases started : (s.polls c n).isOut with
  | true =>
    have at_n : s.polls c n = .out := by
      cases at_n : s.polls c n with
      | out => rfl
      | _ => rw [at_n] at started; cases started
    rw [at_n] at polled here ⊢
    exact polled.inv inv here inside (fun m _ => inv.poll c m) fun busy => (by cases busy)
  | false =>
    have alone : ∀ m, m ≠ n → (s.polls c m).busy = false := fun m other => inv.alone quiet started other
    exact polled.inv inv here inside (fun m other => pollOk_idle (alone m other)) fun _ => alone

theorem Inv.preempt {n : Nat} (inv : Inv k s) (inside : n < k.contexts) : Inv k (preempt s c n) := by
  have own : ∀ m, (Tlb.preempt s c n).polls c m = s.polls c (if m = 0 then n else if m = n then 0 else m) := by
    intro m
    simp only [Tlb.preempt, update_self]
  have apart : ∀ d, d ≠ c → (Tlb.preempt s c n).polls d = s.polls d := by
    intro d other
    simp only [Tlb.preempt, update_of_ne other]
  refine ⟨inv.filled, inv.bits, inv.code, inv.up, fun d m => ?_, fun d m m' => ?_, fun d m high => ?_⟩
  all_goals by_cases at_c : d = c
  · subst at_c
    rw [own]
    exact inv.poll d _
  · rw [apart d at_c]
    exact inv.poll d m
  · subst at_c
    rw [own, own]
    intro busy busy'
    have same := inv.single d _ _ busy busy'
    split_ifs at same <;> omega
  · rw [apart d at_c]
    exact inv.single d m m'
  · subst at_c
    rw [own, if_neg (by omega), if_neg (by omega)]
    exact inv.deep d m high
  · rw [apart d at_c]
    exact inv.deep d m high

theorem Inv.still (inv : Inv k s) (ages : Ages s s')
    (rest : s' = { s with table := s'.table, tlb := s'.tlb })
    (filled : ∀ c space page v, s'.tlb c space page = some v → k.runs c = true ∧ (space = 0 ∨ space = s.cr3 c)) : Inv k s' := by
  rw [rest] at ages ⊢
  refine ⟨filled, inv.bits, fun d => ?_, inv.up, fun d n => ?_, inv.single, inv.deep⟩
  · exact (inv.code d).frame ages rfl (fun _ => rfl) fun mine => ⟨mine, rfl, fun _ up => up, fun _ _ _ up => .inl up⟩
  · exact (inv.poll d n).frame inv ages fun up => ⟨up, rfl, rfl⟩

theorem store_ages {space page : Nat} : Ages s (s.store space page) := by
  refine ⟨fun half other => ?_, fun _ _ _ _ cached => .inl cached⟩
  simp only [State.store, update_apply]
  split
  next same =>
    subst same
    simp only [update_apply]
    split
    next here => rw [here]; exact Nat.le_succ _
    · exact Nat.le_refl _
  · exact Nat.le_refl _

theorem fill_entry {space page d half other v : Nat} (cached : (s.fill c space page).tlb d half other = some v) :
    s.tlb d half other = some v ∨ (d = c ∧ half = space ∧ s.table half other = v) := by
  by_cases at_c : d = c
  · subst at_c
    by_cases at_space : half = space
    · subst at_space
      by_cases at_page : other = page
      · subst at_page
        simp only [State.fill, update_self, Option.some.injEq] at cached
        exact .inr ⟨rfl, rfl, cached⟩
      · simp only [State.fill, update_self, update_of_ne at_page] at cached
        exact .inl cached
    · simp only [State.fill, update_self, update_of_ne at_space] at cached
      exact .inl cached
  · simp only [State.fill, update_of_ne at_c] at cached
    exact .inl cached

theorem Pc.eq_out (out : pc.isOut = true) : pc = .out := by
  cases pc with
  | out => rfl
  | _ => exact nomatch out

theorem step_inv {a : Action} (inv : Inv k s) (quiet : Unnested k s a) (taken : step k s a = some s') : Inv k s' := by
  cases a with
  | store space page =>
    cases taken
    exact inv.still store_ages rfl inv.filled
  | fill c space page =>
    obtain ⟨ready, ⟨⟩⟩ := Option.ite_none_right_eq_some.mp taken
    refine inv.still ⟨fun _ _ => Nat.le_refl _, fun d half other v cached => ?_⟩ rfl fun d half other v cached => ?_
    · exact (fill_entry cached).imp_right fun new => Nat.le_of_eq new.2.2
    · rcases fill_entry cached with before | ⟨rfl, rfl, _⟩
      · exact inv.filled d half other v before
      · exact ready
  | shootdown c space va npages =>
    simp only [step] at taken
    split at taken
    next ready =>
      simp only [Bool.and_eq_true] at ready
      have at_c := Pc.eq_out ready.1.2
      cases taken
      refine inv.goto (by rw [at_c]; rfl) ⟨⟨?_, fun _ => le_rfl⟩, fun j below => nomatch below⟩
      exact beq_iff_eq
    · exact nomatch taken
  | switchSpace c space =>
    simp only [step] at taken
    split at taken
    next ready =>
      simp only [Bool.and_eq_true] at ready
      have at_c := Pc.eq_out ready.1.2
      cases taken
      unfold switchSpace
      split
      · refine inv.setActive (by rw [at_c]; rfl) (fun _ => rfl) fun _ => ?_
        simp only [State.setActive, update_self]
      next half =>
        exact inv.goto (by rw [at_c]; rfl) fun user => absurd user half
    · exact nomatch taken
  | code c =>
    simp only [step] at taken
    split at taken
    next ready =>
      simp only [Bool.and_eq_true] at ready
      exact codeStep_inv inv ready.1 taken
    · exact nomatch taken
  | poll c n =>
    simp only [step] at taken
    obtain ⟨ready, ⟨⟩⟩ := Option.ite_none_right_eq_some.mp taken
    simp only [Bool.and_eq_true, decide_eq_true_eq] at ready
    exact inv.pollStep quiet ready.1.2
  | preempt c n =>
    simp only [step] at taken
    split at taken
    next ready =>
      simp only [Bool.and_eq_true, decide_eq_true_eq] at ready
      cases taken
      exact inv.preempt ready.1.2
    · exact nomatch taken

end
end SecOS.Tlb
