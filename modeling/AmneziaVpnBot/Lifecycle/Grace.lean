import AmneziaVpnBot.Lifecycle.Turns

/-! The grace period. The scheduler queues a remove job when a subscription has been off
for the grace period, and the worker, when it comes to it, looks only at whether the
subscription was renewed. So the period is kept as long as the scheduler's check is not
outdated by then: nothing has changed the subscription's status or `disabled_at` since. -/

namespace AmneziaVpnBot.Lifecycle

/-- The subscriptions whose peer the worker asks a server to remove in this turn. -/
def removalsAsked (s : State) : Turn → List SubscriptionId
  | .job _ _ => match nextJob s with
    | some job => if job.jobType = .removePeer then
        match Worker.read s.seen job s.now with
        | .go _ => [job.aggregateId]
        | _ => []
      else []
    | none => []
  | .bot _ => []

/-- What a turn asks to remove has been off for the grace period. -/
def KeepsGrace (settings : Settings) (s : State) (a : Turn) : Prop :=
  ∀ i ∈ removalsAsked s a, ∃ sub, s.db.subscriptions[i]? = some sub ∧ GraceOver settings s.now sub

/-- The columns the scheduler checks. -/
def offSince (s : State) (i : SubscriptionId) : Option (SubscriptionStatus × Option ℤ) :=
  (s.db.subscriptions[i]?).map fun sub => (sub.status, sub.disabledAt)

/-- The scheduler's cleanup finds the subscription off for the grace period. -/
def checks (settings : Settings) (s : State) (i : SubscriptionId) : Turn → Bool
  | .bot (.one .cleanup) => i ∈ cleanupSubscriptions settings s.db.subscriptions s.now
  | _ => false

/-- A state of the bot, with the subscriptions whose last check by the cleanup still stands. -/
structure Watched where
  state : State
  checked : SubscriptionId → Bool

def watch (settings : Settings) (w : Watched) (a : Turn) : Option Watched :=
  (turn settings w.state a).map fun t =>
    ⟨t, fun i => (checks settings w.state i a || w.checked i) && offSince t i = offSince w.state i⟩

/-- The turn asks for no removal on a check that is outdated. -/
def checkStands (w : Watched) (a : Turn) : Bool := (removalsAsked w.state a).all w.checked

theorem GraceOver.mono {settings : Settings} {now now' : ℤ} {sub : Subscription} (h : GraceOver settings now sub)
    (hle : now ≤ now') : GraceOver settings now' sub := by
  obtain ⟨hstatus, t, ht, hover⟩ := h
  exact ⟨hstatus, t, ht, hover.trans hle⟩

theorem Between.now_le {settings : Settings} {s t : State} (h : Between settings s t) : s.now ≤ t.now := by
  cases h with
  | tick d => show s.now ≤ s.now + d; omega
  | _ => exact le_rfl

theorem turn_now {settings : Settings} {s t : State} {a : Turn} (h : Wf s) (hturn : turn settings s a = some t) :
    s.now ≤ t.now := by
  cases a with
  | bot a => exact (turn_bot_cases h hturn).now_le
  | job reply delivered =>
    obtain ⟨id, rest, job, hran⟩ := runNext_cases h hturn
    exact hran.now.ge

/-- A check that stands is right. -/
structure Standing (settings : Settings) (w : Watched) : Prop where
  rested : Rested w.state
  checked : ∀ i, w.checked i → ∃ sub, w.state.db.subscriptions[i]? = some sub ∧ GraceOver settings w.state.now sub

theorem graceOver_of_offSince {settings : Settings} {s t : State} {i : SubscriptionId} {sub : Subscription}
    (hsub : s.db.subscriptions[i]? = some sub) (hover : GraceOver settings s.now sub) (hnow : s.now ≤ t.now)
    (hsame : offSince t i = offSince s i) :
    ∃ sub', t.db.subscriptions[i]? = some sub' ∧ GraceOver settings t.now sub' := by
  simp only [offSince, hsub, Option.map_some] at hsame
  obtain ⟨sub', hsub', hrow⟩ := Option.map_eq_some_iff.mp hsame
  obtain ⟨hstatus, hdisabled⟩ := Prod.mk.inj hrow
  refine ⟨sub', hsub', GraceOver.mono ?_ hnow⟩
  unfold GraceOver at hover ⊢
  rwa [hstatus, hdisabled]

theorem standing_watch {settings : Settings} {w v : Watched} {a : Turn} (h : Standing settings w)
    (hwatch : watch settings w a = some v) : Standing settings v := by
  obtain ⟨t, hturn, rfl⟩ := Option.map_eq_some_iff.mp hwatch
  refine ⟨rested_turn h.rested hturn, fun i hi => ?_⟩
  simp only [Bool.and_eq_true, Bool.or_eq_true, decide_eq_true_eq] at hi
  obtain ⟨hchecked, hsame⟩ := hi
  have hover : ∃ sub, w.state.db.subscriptions[i]? = some sub ∧ GraceOver settings w.state.now sub := by
    rcases hchecked with hpass | hold
    · unfold checks at hpass
      split at hpass
      · exact graceOver_of_mem_cleanup (by simpa using hpass)
      · cases hpass
    · exact h.checked i hold
  obtain ⟨sub, hsub, hover⟩ := hover
  exact graceOver_of_offSince hsub hover (turn_now h.rested.wf hturn) hsame

/-- In every run whose removals are asked for while the scheduler's check stands, every
subscription whose removal is asked for has been off for the grace period. -/
theorem keepsGrace_run {settings : Settings} {users : Table User} {servers : Table VpnServer}
    {products : Table Product} {now : ℤ} {as : List Turn}
    (hguard : Machine.Along (watch settings) (fun w a => checkStands w a = true)
      ⟨start users servers products now, fun _ => false⟩ as) :
    Machine.Along (turn settings) (KeepsGrace settings) (start users servers products now) as := by
  have hmap : ∀ w a, (watch settings w a).map Watched.state = turn settings w.state a := by
    intro w a
    simp [watch, Function.comp_def]
  have hstart : Standing settings ⟨start users servers products now, fun _ => false⟩ := ⟨rested_start .., by simp⟩
  refine (Machine.along_map hmap).mp
    (Machine.along_of_invariant (fun _ _ _ h _ ht => standing_watch h ht) ?_ hguard hstart)
  intro w a h hg i hi
  exact h.checked i (List.all_eq_true.mp hg i hi)

/-- A subscription that runs out is disabled, and removed after the grace period. -/
def removedInTime : List Turn :=
  [.bot (.one (.startOrder 0 0 0)), .bot (.one (.approve 0 7 1)), .bot (.one (.claim 10)), .job .ok true,
    .bot (.one (.tick 2592000000000)), .bot (.one .checkExpired), .bot (.one (.claim 10)), .job .ok true,
    .bot (.one (.tick 2592000000000)), .bot (.one .cleanup), .bot (.one (.claim 10)), .job .ok true]

theorem keepsGrace_run_removedInTime :
    (Machine.run (turn ⟨30, 3⟩) small removedInTime).isSome ∧
      Machine.Along (turn ⟨30, 3⟩) (KeepsGrace ⟨30, 3⟩) small removedInTime :=
  ⟨by decide +kernel, keepsGrace_run (by decide +kernel)⟩

/-- The remove job is queued, and a day is added before the worker comes to it; the job is
claimed when that day is over. -/
def extendedADay : List Turn := removedInTime.take 10 ++
  [.bot (.one (.extend 0 1 7)), .bot (.one (.tick 86400000000)), .bot (.one (.claim 10))]

/-- The subscription it removes is active. -/
theorem not_keepsGrace_extendedADay :
    ¬ Machine.Along (turn ⟨30, 3⟩) (KeepsGrace ⟨30, 3⟩) small (extendedADay ++ [.job .ok true]) := by
  have hrun : (Machine.run (turn ⟨30, 3⟩) small extendedADay).any (fun s => removalsAsked s (.job .ok true) = [0] &&
      s.db.subscriptions[0]?.any fun sub => sub.status = .active) = true := by decide +kernel
  obtain ⟨s, hs, hasked⟩ := Machine.exists_of_any hrun
  simp only [Bool.and_eq_true, decide_eq_true_eq, Option.any_eq_true] at hasked
  obtain ⟨hasked, sub, hsub, hactive⟩ := hasked
  intro h
  obtain ⟨sub', hsub', hstatus, -⟩ :=
    Machine.along_iff.mp h extendedADay [] (.job .ok true) s rfl hs 0 (by simp [hasked])
  rw [hsub] at hsub'
  cases hsub'
  rw [hactive] at hstatus
  cases hstatus

end AmneziaVpnBot.Lifecycle
