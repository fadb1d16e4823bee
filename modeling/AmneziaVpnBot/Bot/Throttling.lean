import AmneziaVpnBot.Lib.Binary64
import AmneziaVpnBot.Lib.Cooldown

/-! The throttle of the bot: an event of a user who was served less than the rate limit ago is not passed on.
Users who have been quiet are forgotten when the table is full, which no later event can tell. -/

namespace AmneziaVpnBot.Bot

/-- A finite reading of the clock. -/
structure Time where
  negative : Bool
  magnitude : ℕ
  valid : Float64.Valid (.finite negative magnitude)

def Time.seconds (t : Time) : Float64 := .finite t.negative t.magnitude

def Time.ofSeconds (n : ℕ) (h : n < 2 ^ 53) : Time := ⟨false, n * Float64.second, Float64.valid_ofSeconds h⟩

/-- The exact time, in units of `2 ^ -1074` seconds. -/
def Time.exact (t : Time) : ℤ := Float64.units t.negative t.magnitude

structure Event where
  fromUser : Option ℤ
  isCallbackQuery : Bool
  /-- `time.time()` when the event is handled. -/
  now : Time

def Event.visit (e : Event) : Option ℤ × Float64 := (e.fromUser, e.now.seconds)

inductive Outcome
  | passedOn
  /-- A button press is answered even so. -/
  | throttled (answered : Bool)
  deriving DecidableEq

def forgetAfterSeconds : Float64 := .ofSeconds 60

structure ThrottlingMiddleware where
  rateLimitSeconds : Float64
  valid : rateLimitSeconds.Valid
  /-- `PRUNE_AT_SIZE`, or `none` for a version that never prunes. -/
  pruneAtSize : Option ℕ

abbrev LastSeen := Dict ℤ Float64

namespace ThrottlingMiddleware

def prune (m : ThrottlingMiddleware) (now : Float64) (lastSeen : LastSeen) : LastSeen :=
  let cutoff := Float64.sub now (Float64.max forgetAfterSeconds m.rateLimitSeconds)
  lastSeen.filter fun e => Float64.ge e.2 cutoff

def call (m : ThrottlingMiddleware) (lastSeen : LastSeen) (event : Event) : Outcome × LastSeen :=
  match event.fromUser with
  | none => (.passedOn, lastSeen)
  | some id =>
    let now := event.now.seconds
    let lastTime := (lastSeen.get id).getD (.ofSeconds 0)
    if Float64.lt (Float64.sub now lastTime) m.rateLimitSeconds then (.throttled event.isCallbackQuery, lastSeen)
    else
      let kept := if m.pruneAtSize.any (· ≤ lastSeen.size) then m.prune now lastSeen else lastSeen
      (.passedOn, kept.set id now)

/-- The outcomes of the events, one after the other. -/
def outcomes (m : ThrottlingMiddleware) : LastSeen → List Event → List Outcome
  | _, [] => []
  | lastSeen, event :: events => (m.call lastSeen event).1 :: outcomes m (m.call lastSeen event).2 events

/-- The same with a table that only grows. -/
def neverPruning (m : ThrottlingMiddleware) : ThrottlingMiddleware := { m with pruneAtSize := none }

variable {m : ThrottlingMiddleware}

/-! ### Times -/

/-- A time at which an event may come. -/
def OnTime (m : ThrottlingMiddleware) (x : Float64) : Prop :=
  ∃ t : Time, x = t.seconds ∧ Float64.lt m.rateLimitSeconds x = true

def NotAfter (x y : Float64) : Prop := Float64.lt y x = false

theorem notAfter_seconds {t t' : Time} : NotAfter t.seconds t'.seconds ↔ t.exact ≤ t'.exact := by
  rw [NotAfter, ← Bool.not_eq_true, Time.seconds, Time.seconds, Float64.lt_finite]
  exact not_lt

/-- Less than the rate limit lies between two times. -/
def Within (m : ThrottlingMiddleware) (earlier now : Time) : Prop :=
  match m.rateLimitSeconds with
  | .finite s k => now.exact - earlier.exact < Float64.units s k
  | .infinite negative => negative = false
  | .nan => False

def rule (m : ThrottlingMiddleware) : Cooldown.Rule Float64 where
  soon now last := Float64.lt (Float64.sub now last) m.rateLimitSeconds
  stale now last := !Float64.ge last (Float64.sub now (Float64.max forgetAfterSeconds m.rateLimitSeconds))

/-- Rounding does not blur the limit. -/
theorem soon_iff {t q : Time} (ht : m.OnTime t.seconds) (hle : t.exact ≤ q.exact) :
    m.rule.soon q.seconds t.seconds = true ↔ m.Within t q := by
  obtain ⟨-, -, hlater⟩ := ht
  have hvalid := m.valid
  unfold rule Within
  dsimp only
  cases hrate : m.rateLimitSeconds with
  | nan => simp
  | infinite negative =>
    rw [hrate] at hlater
    obtain rfl : negative = true := hlater
    simp
  | finite s k =>
    rw [hrate] at hlater hvalid
    exact Float64.lt_sub_iff hvalid q.valid t.valid (Float64.lt_finite.mp hlater) hle

/-- The time to forget is the longer of the two. -/
theorem forget_le {s : Bool} {k : ℕ} (hvalid : Float64.Valid (.finite s k)) :
    ∃ s' k', Float64.max forgetAfterSeconds (.finite s k) = .finite s' k' ∧ Float64.Valid (.finite s' k') ∧
      Float64.units s k ≤ Float64.units s' k' := by
  unfold Float64.max
  split
  · exact ⟨s, k, rfl, hvalid, le_rfl⟩
  · rename_i h
    rw [Bool.not_eq_true] at h
    refine ⟨false, 60 * Float64.second, rfl, Float64.valid_ofSeconds (by omega), ?_⟩
    exact not_lt.mp (of_decide_eq_false h)

theorem rule_sound (m : ThrottlingMiddleware) : m.rule.Sound NotAfter m.OnTime where
  not_soon_of_stale := by
    rintro _ _ _ ⟨t, rfl, ht⟩ ⟨p, rfl, -⟩ ⟨q, rfl, -⟩ hle hstale
    have hvalid := m.valid
    unfold rule at hstale ⊢
    dsimp only at hstale ⊢
    cases hrate : m.rateLimitSeconds with
    | nan => exact Float64.lt_nan _
    | infinite negative =>
      rw [hrate] at ht
      obtain rfl : negative = true := ht
      exact Float64.lt_negInfinite _
    | finite s k =>
      rw [hrate] at hvalid hstale
      obtain ⟨s', k', hmax, hvalid', hk⟩ := forget_le hvalid
      rw [hmax, Bool.not_eq_true'] at hstale
      have hcut := Float64.lt_of_not_ge Float64.noConfusion (Float64.sub_ne_nan _ _ _ _) hstale
      have hquiet : t.exact < p.exact - Float64.units s' k' := by
        by_contra hnot
        rw [Time.seconds, Float64.lt_sub_right t.valid (not_lt.mp hnot)] at hcut
        cases hcut
      rw [notAfter_seconds] at hle
      refine Float64.lt_sub_left hvalid ?_
      unfold Time.exact at hle hquiet
      omega
  soon_of_le := by
    rintro _ _ _ ⟨t, rfl, ht⟩ ⟨t', rfl, ht'⟩ ⟨q, rfl, -⟩ hle hle' hsoon
    rw [notAfter_seconds] at hle hle'
    rw [soon_iff ⟨t, rfl, ht⟩ (hle.trans hle')] at hsoon
    rw [soon_iff ⟨t', rfl, ht'⟩ hle']
    unfold Within at hsoon ⊢
    cases hrate : m.rateLimitSeconds with
    | nan => simp [hrate] at hsoon
    | infinite negative => simpa [hrate] using hsoon
    | finite s k =>
      simp only [hrate] at hsoon ⊢
      omega

/-! ### Runs -/

/-- The table lets it drop what is stale. -/
def prunes (m : ThrottlingMiddleware) (lastSeen : LastSeen) : Bool := m.pruneAtSize.any (· ≤ lastSeen.size)

def outcome (passes : Bool) (e : Event) : Outcome := if passes then .passedOn else .throttled e.isCallbackQuery

theorem outcome_eq {passes : Bool} {e : Event} : outcome passes e = .passedOn ↔ passes = true := by
  cases passes <;> simp [outcome]

/-- Who has not been seen was last seen at 0.0, which no event is near. -/
theorem not_soon_zero {e : Event} (he : m.OnTime e.now.seconds) :
    Float64.lt (Float64.sub e.now.seconds (.ofSeconds 0)) m.rateLimitSeconds = false := by
  obtain ⟨-, -, hlater⟩ := he
  have hvalid := m.valid
  cases hrate : m.rateLimitSeconds with
  | nan => exact Float64.lt_nan _
  | infinite negative =>
    rw [hrate] at hlater
    obtain rfl : negative = true := hlater
    exact Float64.lt_negInfinite _
  | finite s k =>
    rw [hrate] at hlater hvalid
    refine Float64.lt_sub_left hvalid ?_
    have hlt := Float64.lt_finite.mp hlater
    simp only [Float64.units, Nat.zero_mul, Bool.false_eq_true, if_false] at hlt ⊢
    omega

theorem prune_eq (now : Float64) (lastSeen : LastSeen) :
    m.prune now lastSeen = lastSeen.filter fun e => !m.rule.stale now e.2 := by
  unfold prune rule
  simp only [Bool.not_not]

/-- The middleware keeps a table of that kind. -/
theorem call_eq {e : Event} (he : m.OnTime e.now.seconds) (lastSeen : LastSeen) :
    m.call lastSeen e =
      (outcome (Cooldown.visit m.rule m.prunes lastSeen e.visit).1 e,
        (Cooldown.visit m.rule m.prunes lastSeen e.visit).2) := by
  have hzero := not_soon_zero he
  unfold call Event.visit
  cases hid : e.fromUser with
  | none => rfl
  | some id =>
    rw [Cooldown.visit_some]
    dsimp only
    have hsoon : Float64.lt (Float64.sub e.now.seconds ((lastSeen.get id).getD (.ofSeconds 0))) m.rateLimitSeconds =
        (lastSeen.get id).any (m.rule.soon e.now.seconds) := by
      cases lastSeen.get id with
      | none => exact hzero
      | some t => rfl
    rw [hsoon]
    split
    · rfl
    · rw [prune_eq]
      rfl

theorem outcomes_eq {events : List Event} (hevents : ∀ e ∈ events, m.OnTime e.now.seconds) (lastSeen : LastSeen) :
    m.outcomes lastSeen events =
      List.zipWith outcome (Cooldown.verdicts m.rule m.prunes lastSeen (events.map Event.visit)) events := by
  induction events generalizing lastSeen with
  | nil => rfl
  | cons e events ih =>
    obtain ⟨he, hevents⟩ := List.forall_mem_cons.mp hevents
    rw [outcomes, call_eq he, ih hevents]
    rfl

theorem getElem_outcomes {events : List Event} (hevents : ∀ e ∈ events, m.OnTime e.now.seconds) {i : ℕ} {e : Event}
    (hi : events[i]? = some e) :
    (m.outcomes .empty events)[i]? = some .passedOn ↔
      (Cooldown.verdicts m.rule m.prunes .empty (events.map Event.visit))[i]? = some true := by
  rw [outcomes_eq hevents, List.getElem?_zipWith_eq_some]
  constructor
  · rintro ⟨b, e', hb, -, hpass⟩
    rw [hb, outcome_eq.mp hpass]
  · exact fun h => ⟨true, e, h, hi, rfl⟩

theorem getElem_pairwise {events : List Event} (h : events.Pairwise fun e e' => e.now.exact ≤ e'.now.exact) {j i : ℕ}
    {e' e : Event} (hj : j < i) (he' : events[j]? = some e') (he : events[i]? = some e) :
    e'.now.exact ≤ e.now.exact := by
  obtain ⟨hjlen, rfl⟩ := List.getElem?_eq_some_iff.mp he'
  obtain ⟨hilen, rfl⟩ := List.getElem?_eq_some_iff.mp he
  exact List.pairwise_iff_getElem.mp h j i hjlen hilen hj

/-- For any rate limit, any table size from which it prunes and any events at times in order and later than the
limit: the events that are passed on are those of a version that never prunes, and a user's event is one of them
if and only if none of theirs was passed on less than the limit before it. -/
theorem passedOn_iff (m : ThrottlingMiddleware) {events : List Event}
    (hsorted : events.Pairwise fun e e' => e.now.exact ≤ e'.now.exact)
    (hlater : ∀ e ∈ events, Float64.lt m.rateLimitSeconds e.now.seconds = true) :
    m.outcomes .empty events = m.neverPruning.outcomes .empty events ∧
      ∀ (i : ℕ) (e : Event) (id : ℤ), events[i]? = some e → e.fromUser = some id →
        ((m.outcomes .empty events)[i]? = some .passedOn ↔
          ∀ (j : ℕ) (e' : Event), j < i → events[j]? = some e' → e'.fromUser = some id →
            (m.outcomes .empty events)[j]? = some .passedOn → ¬ m.Within e'.now e.now) := by
  have honTime : ∀ e ∈ events, m.OnTime e.now.seconds := fun e he => ⟨e.now, rfl, hlater e he⟩
  have hvisits : ∀ v ∈ events.map Event.visit, m.OnTime v.2 := by
    rintro v hv
    obtain ⟨e, he, rfl⟩ := List.mem_map.mp hv
    exact honTime e he
  have horder : (events.map Event.visit).Pairwise fun v w => NotAfter v.2 w.2 := by
    rw [List.pairwise_map]
    exact hsorted.imp notAfter_seconds.mpr
  have hempty : ∀ k t, (Dict.empty : LastSeen).get k = some t → m.OnTime t := fun k t ht => by cases ht
  have hsame : Cooldown.verdicts m.rule m.prunes .empty (events.map Event.visit) =
      Cooldown.verdicts m.rule Cooldown.never .empty (events.map Event.visit) :=
    Cooldown.verdicts_eq m.rule_sound (fun _ => .inl rfl) hempty hvisits horder
  constructor
  · rw [outcomes_eq honTime, outcomes_eq (m := m.neverPruning) honTime, hsame]
    rfl
  · intro i e id hi hid
    have hvisit : (events.map Event.visit)[i]? = some (some id, e.now.seconds) := by
      rw [List.getElem?_map, hi, ← hid]
      rfl
    have hrecords : Cooldown.Records m.rule (events.map Event.visit) .empty [] := by
      intro k now _
      simp [Cooldown.Recent]
    rw [getElem_outcomes honTime hi, hsame, Cooldown.verdicts_iff m.rule_sound hrecords hvisits horder (by simp) hvisit]
    have hpair : ∀ j e', j < i → events[j]? = some e' →
        (m.rule.soon e.now.seconds e'.now.seconds = true ↔ m.Within e'.now e.now) := fun j e' hj he' =>
      soon_iff (honTime e' (List.mem_of_getElem? he')) (getElem_pairwise hsorted hj he' hi)
    constructor
    · rintro ⟨-, hearlier⟩ j e' hj he' hid' hpass
      rw [getElem_outcomes honTime he', hsame] at hpass
      have hvisit' : (events.map Event.visit)[j]? = some (some id, e'.now.seconds) := by
        rw [List.getElem?_map, he', ← hid']
        rfl
      rw [← hpair j e' hj he', hearlier j _ hj hvisit' hpass]
      exact Bool.false_ne_true
    · intro hearlier
      refine ⟨by simp [Cooldown.Recent], fun j t hj ht hpass => ?_⟩
      rw [List.getElem?_map] at ht
      obtain ⟨e', he', hvisit'⟩ := Option.map_eq_some_iff.mp ht
      obtain ⟨hid', rfl⟩ := Prod.mk.inj hvisit'
      rw [← hsame, ← getElem_outcomes honTime he'] at hpass
      rw [← Bool.not_eq_true, hpair j e' hj he']
      exact hearlier j e' hj he' hid' hpass

/-- A limit of one second, and a table that is full with one user. -/
def oneSecond : ThrottlingMiddleware where
  rateLimitSeconds := .ofSeconds 1
  valid := Float64.valid_ofSeconds (by omega)
  pruneAtSize := some 1

/-- Two users press buttons, the second one twice at once. -/
def twoUsers : List Event :=
  [⟨some 1, true, .ofSeconds 100 (by omega)⟩, ⟨some 2, true, .ofSeconds 200 (by omega)⟩,
    ⟨some 2, true, .ofSeconds 200 (by omega)⟩]

example : oneSecond.outcomes .empty twoUsers = [.passedOn, .passedOn, .throttled true] := by decide +kernel

theorem passedOn_iff_twoUsers :
    oneSecond.outcomes .empty twoUsers = oneSecond.neverPruning.outcomes .empty twoUsers := by
  have hsorted : twoUsers.Pairwise fun e e' => e.now.exact ≤ e'.now.exact := by decide +kernel
  have hlater : ∀ e ∈ twoUsers, Float64.lt oneSecond.rateLimitSeconds e.now.seconds = true := by decide +kernel
  exact (passedOn_iff oneSecond hsorted hlater).1

end ThrottlingMiddleware

end AmneziaVpnBot.Bot
