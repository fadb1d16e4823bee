import AmneziaVpnBot.Db.Models
import AmneziaVpnBot.Lib.Machine
import Mathlib.Data.List.Sort
import Mathlib.Order.Bounds.Basic

/-! Expiry reminders. A pass of the scheduler takes the active subscriptions that run out within
the longest of the configured numbers of days, picks the smallest number that the days left do
not exceed, and sends that reminder unless its key is stored. It counts whole days, so a reminder
can go out up to a day early. -/

namespace AmneziaVpnBot.Scheduler

/-! ### A pass -/

/-- The key `sub_{sub.id}_reminder_{matched_day}d_{expires_at:%Y%m%d}`. -/
structure ReminderKey where
  subscription : SubscriptionId
  days : ℤ
  date : ℤ
  deriving DecidableEq

inductive NotificationType
  | expires1d | expires3d | expires7d
  deriving DecidableEq

structure Notification where
  userId : UserId
  notificationType : NotificationType
  idempotencyKey : ReminderKey

structure Tables where
  users : Table User
  servers : Table VpnServer
  subscriptions : Table Subscription
  notifications : List Notification

/-- A reminder as it is given to Telegram; `subscription` is what its button renews. -/
structure Reminder where
  chatId : ChatId
  subscription : SubscriptionId
  server : VpnServer
  expiresAt : ℤ
  days : ℤ

/-- `sorted(reminder_days or [7, 3, 1], reverse=True)` -/
def sortedDays (reminderDays : List ℤ) : List ℤ :=
  (if reminderDays = [] then [7, 3, 1] else reminderDays).insertionSort (· ≥ ·)

/-- Active subscriptions that run out by `beforeTime` and have not run out, the next one first. -/
def listExpiringSoon (subs : Table Subscription) (beforeTime now : ℤ) : List SubscriptionId :=
  (subs.select fun sub => sub.status = .active && sub.expiresAt ≤ beforeTime && now < sub.expiresAt).insertionSort
    fun i j => (subs[i]?).elim 0 Subscription.expiresAt ≤ (subs[j]?).elim 0 Subscription.expiresAt

/-- The smallest number of days that the whole days left do not exceed. -/
def matchedDay (reminderDays : List ℤ) (timeLeft : ℤ) : Option ℤ :=
  (reminderDays.insertionSort (· ≤ ·)).find? fun threshold => timeLeft / days 1 ≤ threshold

def notificationType (matchedDay : ℤ) : NotificationType :=
  if matchedDay = 3 then .expires3d else if matchedDay = 7 then .expires7d else .expires1d

def Tables.has (t : Tables) (key : ReminderKey) : Bool := t.notifications.any fun n => n.idempotencyKey = key

/-- The key of the reminder that is due by the whole days left. -/
def dueKey (reminderDays : List ℤ) (now : ℤ) (t : Tables) (id : SubscriptionId) : Option ReminderKey :=
  (t.subscriptions[id]?).bind fun sub =>
    if sub.expiresAt - now ≤ 0 then none
    else (matchedDay reminderDays (sub.expiresAt - now)).map fun d => ⟨id, d, sub.expiresAt / days 1⟩

/-- The message, if the user and the server are there. -/
def reminder (t : Tables) (key : ReminderKey) : Option Reminder :=
  (t.subscriptions[key.subscription]?).bind fun sub =>
    match t.users[sub.userId]?, t.servers[sub.vpnServerId]? with
    | some user, some server => some ⟨user.telegramUserId, key.subscription, server, sub.expiresAt, key.days⟩
    | _, _ => none

def store (t : Tables) (key : ReminderKey) : Tables :=
  { t with notifications := t.notifications ++ ((t.subscriptions[key.subscription]?).map fun sub =>
      ⟨sub.userId, notificationType key.days, key⟩).toList }

/-- One subscription of the pass; the message may fail to arrive, which is only logged. -/
def remind (reminderDays : List ℤ) (now : ℤ) (t : Tables) (id : SubscriptionId) : Tables × List Reminder :=
  match dueKey reminderDays now t id with
  | none => (t, [])
  | some key => if t.has key then (t, []) else (store t key, (reminder t key).toList)

def remindAll (reminderDays : List ℤ) (now : ℤ) : Tables → List SubscriptionId → Tables × List Reminder
  | t, [] => (t, [])
  | t, id :: ids =>
    let (t', sent) := remind reminderDays now t id
    let (t'', more) := remindAll reminderDays now t' ids
    (t'', sent ++ more)

/-- A pass reads the clock twice: when it starts, and for its query. -/
def checkExpiringSubscriptions (reminderDays : List ℤ) (now queryNow : ℤ) (t : Tables) : Tables × List Reminder :=
  let reminderDays := sortedDays reminderDays
  let window := now + days ((reminderDays.max?).getD 0)
  remindAll reminderDays now t (listExpiringSoon t.subscriptions window queryNow)

/-! ### Runs -/

structure State where
  clock : ℤ
  tables : Tables
  /-- Every reminder sent so far. -/
  sent : List Reminder

inductive Event
  | pass (now queryNow : ℤ)
  /-- What others make of the tables between two passes. -/
  | other (tables : Tables)

def messages (reminderDays : List ℤ) (s : State) : Event → List Reminder
  | .pass now queryNow => (checkExpiringSubscriptions reminderDays now queryNow s.tables).2
  | .other _ => []

def step (reminderDays : List ℤ) (s : State) : Event → Option State
  | .pass now queryNow => some ⟨queryNow, (checkExpiringSubscriptions reminderDays now queryNow s.tables).1,
      s.sent ++ messages reminderDays s (.pass now queryNow)⟩
  | .other tables => some { s with tables := tables }

/-- An active subscription of a known user on a known server, which runs out at `expiry`. -/
def Standing (id : SubscriptionId) (expiry : ℤ) (t : Tables) : Prop :=
  ∃ sub, t.subscriptions[id]? = some sub ∧ sub.status = .active ∧ sub.expiresAt = expiry ∧
    (t.users[sub.userId]?).isSome ∧ (t.servers[sub.vpnServerId]?).isSome

/-- Passes follow each other, and between them the subscription stands and its reminders stay stored. -/
def Allowed (id : SubscriptionId) (expiry : ℤ) (s : State) : Event → Prop
  | .pass now queryNow => s.clock ≤ now ∧ now ≤ queryNow
  | .other tables =>
    Standing id expiry tables ∧ ∀ key : ReminderKey, key.subscription = id → tables.has key = s.tables.has key

/-- The days of the reminders for that subscription. -/
def daysSent (id : SubscriptionId) (sent : List Reminder) : List ℤ :=
  (sent.filter fun r => r.subscription = id).map Reminder.days

/-- A pass before the expiry sends the reminder of the smallest number of days that the time left
does not exceed, unless an earlier pass did; a later pass sends none; and none is sent twice. -/
def OnTime (reminderDays : List ℤ) (id : SubscriptionId) (expiry : ℤ) (s : State) : Event → Prop
  | .pass now queryNow =>
    (queryNow < expiry → ∀ d, d ∈ daysSent id (messages reminderDays s (.pass now queryNow)) ↔
      IsLeast {d | d ∈ reminderDays ∧ expiry - now ≤ days d} d ∧ d ∉ daysSent id s.sent) ∧
    (expiry ≤ queryNow → daysSent id (messages reminderDays s (.pass now queryNow)) = []) ∧
    (daysSent id (s.sent ++ messages reminderDays s (.pass now queryNow))).Nodup
  | .other _ => True

/-- No pass before the expiry has between `d` and `d + 1` days left, for any of the numbers of days but the largest. -/
def WholeDays (reminderDays : List ℤ) (expiry : ℤ) : Event → Prop
  | .pass now queryNow => queryNow < expiry → ∀ d ∈ reminderDays, (∃ longer ∈ reminderDays, d < longer) →
      expiry - now ≤ days d ∨ days (d + 1) ≤ expiry - now
  | .other _ => True

/-! ### Thresholds -/

theorem find?_isLeast {α : Type*} [LinearOrder α] {p : α → Bool} {ds : List α} (hs : ds.Pairwise (· ≤ ·)) {d : α} :
    ds.find? p = some d ↔ IsLeast {d | d ∈ ds ∧ p d = true} d := by
  induction ds with
  | nil => simp [IsLeast]
  | cons a ds ih =>
    obtain ⟨hle, hs⟩ := List.pairwise_cons.mp hs
    rw [List.find?_cons]
    cases ha : p a with
    | true =>
      simp only [Option.some.injEq]
      constructor
      · rintro rfl
        refine ⟨⟨List.mem_cons_self, ha⟩, ?_⟩
        rintro b ⟨hb, -⟩
        exact (List.mem_cons.mp hb).elim (fun h => h.ge) (hle b)
      · rintro ⟨⟨hd, hp⟩, hleast⟩
        refine le_antisymm ?_ (hleast ⟨List.mem_cons_self, ha⟩)
        exact (List.mem_cons.mp hd).elim (fun h => h.ge) (hle d)
    | false =>
      rw [ih hs]
      have hset : {d | d ∈ a :: ds ∧ p d = true} = {d | d ∈ ds ∧ p d = true} := by
        ext b
        simp only [Set.mem_ofPred_eq, List.mem_cons]
        constructor
        · rintro ⟨rfl | hb, hp⟩
          · rw [ha] at hp
            cases hp
          · exact ⟨hb, hp⟩
        · exact fun h => ⟨.inr h.1, h.2⟩
      rw [hset]

variable {reminderDays : List ℤ} {id : SubscriptionId} {expiry now queryNow left d : ℤ} {t : Tables} {s : State}

theorem mem_sortedDays (hne : reminderDays ≠ []) : d ∈ sortedDays reminderDays ↔ d ∈ reminderDays := by
  rw [sortedDays, if_neg hne, List.mem_insertionSort]

theorem ediv_day_le : left / days 1 ≤ d ↔ left < days (d + 1) := by
  have hday : days 1 = 86400000000 := by decide
  have hdays : days (d + 1) = 86400000000 * (d + 1) := by simp only [days, seconds]; omega
  rw [hday, hdays]
  omega

/-- The day that is matched is the smallest that the whole days do not exceed. -/
theorem matchedDay_eq_some :
    matchedDay reminderDays left = some d ↔ IsLeast {d | d ∈ reminderDays ∧ left < days (d + 1)} d := by
  rw [matchedDay, find?_isLeast (List.pairwise_insertionSort (· ≤ ·) reminderDays)]
  simp only [List.mem_insertionSort, decide_eq_true_eq, ediv_day_le]

theorem exists_longest (hne : reminderDays ≠ []) :
    ∃ m ∈ reminderDays, ((sortedDays reminderDays).max?).getD 0 = m ∧ ∀ d ∈ reminderDays, d ≤ m := by
  cases hm : (sortedDays reminderDays).max? with
  | none =>
    rw [List.max?_eq_none_iff, sortedDays, if_neg hne, ← List.length_eq_zero_iff, List.length_insertionSort,
      List.length_eq_zero_iff] at hm
    exact absurd hm hne
  | some m =>
    obtain ⟨hmem, hle⟩ := List.max?_eq_some_iff.mp hm
    exact ⟨m, (mem_sortedDays hne).mp hmem, rfl, fun d hd => hle d ((mem_sortedDays hne).mpr hd)⟩

/-- With the longest number of days `m` ahead and no whole day cut short, what is matched is what is due. -/
theorem matched_iff_due {m : ℤ} (hm : m ∈ reminderDays) (hlongest : ∀ d ∈ reminderDays, d ≤ m)
    (hwhole : ∀ d ∈ reminderDays, d < m → left ≤ days d ∨ days (d + 1) ≤ left) :
    left ≤ days m ∧ matchedDay reminderDays left = some d ↔ IsLeast {d | d ∈ reminderDays ∧ left ≤ days d} d := by
  have hmono : ∀ {a b : ℤ}, a ≤ b → days a ≤ days b := by
    intro a b h
    simp only [days, seconds]
    omega
  have hlt : days d < days (d + 1) := by
    simp only [days, seconds]
    omega
  -- within the window the two conditions select the same numbers
  have hsame : left ≤ days m → ∀ b ∈ reminderDays, left < days (b + 1) → left ≤ days b := by
    intro hwindow b hb hlt
    rcases (hlongest b hb).lt_or_eq with hbm | rfl
    · exact (hwhole b hb hbm).resolve_right (not_le.mpr hlt)
    · exact hwindow
  rw [matchedDay_eq_some]
  constructor
  · rintro ⟨hwindow, ⟨hd, hleft⟩, hleast⟩
    refine ⟨⟨hd, hsame hwindow d hd hleft⟩, ?_⟩
    rintro b ⟨hb, hb'⟩
    refine hleast ⟨hb, hb'.trans_lt ?_⟩
    simp only [days, seconds]
    omega
  · rintro ⟨⟨hd, hleft⟩, hleast⟩
    have hwindow := hleft.trans (hmono (hlongest d hd))
    refine ⟨hwindow, ⟨hd, hleft.trans_lt hlt⟩, ?_⟩
    rintro b ⟨hb, hb'⟩
    exact hleast ⟨hb, hsame hwindow b hb hb'⟩

/-- A day cut short is matched though it is not due. -/
theorem matched_early {m : ℤ} (hd : d ∈ reminderDays) (hdm : d < m) (hleft : days d < left)
    (hcut : left < days (d + 1)) : left ≤ days m ∧ matchedDay reminderDays left = some d := by
  rw [matchedDay_eq_some]
  refine ⟨?_, ⟨hd, hcut⟩, ?_⟩
  · simp only [days, seconds] at *
    omega
  · rintro b ⟨-, hb⟩
    simp only [days, seconds] at *
    omega

/-! ### One pass -/

theorem has_store {key k : ReminderKey} (h : t.subscriptions[key.subscription]? ≠ none) :
    (store t key).has k = (t.has k || decide (key = k)) := by
  obtain ⟨sub, hsub⟩ := Option.ne_none_iff_exists'.mp h
  simp [store, Tables.has, hsub, List.any_append]

theorem dueKey_subscription {key : ReminderKey} (h : dueKey reminderDays now t id = some key) :
    key.subscription = id ∧ t.subscriptions[id]? ≠ none := by
  obtain ⟨sub, hsub, h⟩ := Option.bind_eq_some_iff.mp h
  refine ⟨?_, by simp [hsub]⟩
  split_ifs at h
  obtain ⟨d, -, rfl⟩ := Option.map_eq_some_iff.mp h
  rfl

/-- What a pass leaves as it is: everything but the stored notifications. -/
structure SameRows (t u : Tables) : Prop where
  users : u.users = t.users
  servers : u.servers = t.servers
  subscriptions : u.subscriptions = t.subscriptions

theorem SameRows.refl (t : Tables) : SameRows t t := ⟨rfl, rfl, rfl⟩

theorem SameRows.trans {u v : Tables} (h : SameRows t u) (h' : SameRows u v) : SameRows t v :=
  ⟨h'.users.trans h.users, h'.servers.trans h.servers, h'.subscriptions.trans h.subscriptions⟩

theorem remind_sameRows (i : SubscriptionId) : SameRows t (remind reminderDays now t i).1 := by
  unfold remind
  split
  · exact .refl t
  · split_ifs
    · exact .refl t
    · exact ⟨rfl, rfl, rfl⟩

theorem remindAll_sameRows (ids : List SubscriptionId) : SameRows t (remindAll reminderDays now t ids).1 := by
  induction ids generalizing t with
  | nil => exact .refl t
  | cons i ids ih => exact (remind_sameRows i).trans ih

theorem dueKey_congr {u : Tables} (h : SameRows t u) (i : SubscriptionId) :
    dueKey reminderDays now u i = dueKey reminderDays now t i := by
  rw [dueKey, dueKey, h.subscriptions]

theorem Standing.congr {u : Tables} (hs : Standing id expiry t) (h : SameRows t u) : Standing id expiry u := by
  rw [Standing, h.users, h.servers, h.subscriptions]
  exact hs

theorem daysSent_append (id : SubscriptionId) (l₁ l₂ : List Reminder) :
    daysSent id (l₁ ++ l₂) = daysSent id l₁ ++ daysSent id l₂ := by
  rw [daysSent, List.filter_append, List.map_append]
  rfl

theorem daysSent_reminder_of_ne {key : ReminderKey} (h : key.subscription ≠ id) :
    daysSent id (reminder t key).toList = [] := by
  unfold reminder
  cases t.subscriptions[key.subscription]? with
  | none => rfl
  | some sub =>
    rw [Option.bind_some]
    split
    · simp [daysSent, h]
    · rfl

/-- Where the user and the server are there the message is sent. -/
theorem Standing.daysSent_reminder {key : ReminderKey} (hs : Standing id expiry t) (h : key.subscription = id) :
    daysSent id (reminder t key).toList = [key.days] := by
  obtain ⟨sub, hsub, -, -, huser, hserver⟩ := hs
  obtain ⟨user, huser⟩ := Option.isSome_iff_exists.mp huser
  obtain ⟨server, hserver⟩ := Option.isSome_iff_exists.mp hserver
  simp [reminder, daysSent, h, hsub, huser, hserver]

/-- Another subscription's turn does not touch this one's reminders. -/
theorem remind_other {i : SubscriptionId} (hne : i ≠ id) {key : ReminderKey} (hkey : key.subscription = id) :
    (remind reminderDays now t i).1.has key = t.has key ∧ daysSent id (remind reminderDays now t i).2 = [] := by
  unfold remind
  cases hdue : dueKey reminderDays now t i with
  | none => exact ⟨rfl, rfl⟩
  | some k =>
    obtain ⟨hk, hrow⟩ := dueKey_subscription hdue
    have hne' : k ≠ key := fun h => hne (by rw [← hk, h, hkey])
    dsimp only
    split_ifs
    · exact ⟨rfl, rfl⟩
    · refine ⟨?_, daysSent_reminder_of_ne (by rwa [hk])⟩
      rw [has_store (by rwa [hk])]
      simp [hne']

/-- Its own turn stores the key that is due and sends its reminder if the key is new. -/
theorem Standing.remind (hs : Standing id expiry t) :
    (∀ key, (remind reminderDays now t id).1.has key =
      (t.has key || decide (dueKey reminderDays now t id = some key))) ∧
      daysSent id (remind reminderDays now t id).2 =
        (((dueKey reminderDays now t id).filter fun key => !t.has key).map ReminderKey.days).toList := by
  unfold Scheduler.remind
  cases hdue : dueKey reminderDays now t id with
  | none => simp [daysSent]
  | some k =>
    obtain ⟨hk, hrow⟩ := dueKey_subscription hdue
    dsimp only
    split_ifs with hhas
    · refine ⟨fun key => ?_, by simp [Option.filter, hhas, daysSent]⟩
      by_cases hkey : k = key
      · simp [← hkey, hhas]
      · simp [hkey]
    · refine ⟨fun key => ?_, ?_⟩
      · rw [has_store (by rwa [hk])]
        simp
      · rw [hs.daysSent_reminder hk]
        simp [Option.filter, hhas]

theorem remindAll_other {ids : List SubscriptionId} (h : id ∉ ids) {key : ReminderKey} (hkey : key.subscription = id) :
    (remindAll reminderDays now t ids).1.has key = t.has key ∧
    daysSent id (remindAll reminderDays now t ids).2 = [] := by
  induction ids generalizing t with
  | nil => exact ⟨rfl, rfl⟩
  | cons i ids ih =>
    obtain ⟨hne, h⟩ := not_or.mp (List.mem_cons.not.mp h)
    obtain ⟨hhas, hsent⟩ := remind_other (t := t) (Ne.symm hne) hkey
    obtain ⟨hhas', hsent'⟩ := ih (t := (Scheduler.remind reminderDays now t i).1) h
    rw [remindAll, daysSent_append, hsent, hsent', hhas', hhas]
    exact ⟨rfl, rfl⟩

/-- Over a pass the subscription has at most its one turn. -/
theorem Standing.remindAll (hs : Standing id expiry t) {ids : List SubscriptionId} (hnodup : ids.Nodup)
    (hmem : id ∈ ids) :
    (∀ key : ReminderKey, key.subscription = id → (remindAll reminderDays now t ids).1.has key =
        (t.has key || decide (dueKey reminderDays now t id = some key))) ∧
      daysSent id (remindAll reminderDays now t ids).2 =
        (((dueKey reminderDays now t id).filter fun key => !t.has key).map ReminderKey.days).toList := by
  induction ids generalizing t with
  | nil => cases hmem
  | cons i ids ih =>
    obtain ⟨hni, hnodup⟩ := List.nodup_cons.mp hnodup
    rw [Scheduler.remindAll, daysSent_append]
    by_cases hi : i = id
    · subst hi
      obtain ⟨hhas, hsent⟩ := hs.remind
      refine ⟨fun key hkey => ?_, ?_⟩
      · rw [(remindAll_other hni hkey).1, hhas]
      · have hself : (⟨i, 0, 0⟩ : ReminderKey).subscription = i := rfl
        rw [hsent, (remindAll_other hni hself).2, List.append_nil]
    · have hrows : SameRows t (Scheduler.remind reminderDays now t i).1 := remind_sameRows i
      obtain ⟨hhas, hsent⟩ := ih (hs.congr hrows) hnodup ((List.mem_cons.mp hmem).resolve_left (Ne.symm hi))
      rw [dueKey_congr hrows] at hhas hsent
      refine ⟨fun key hkey => ?_, ?_⟩
      · rw [hhas key hkey, (remind_other hi hkey).1]
      · have hself : (⟨id, 0, 0⟩ : ReminderKey).subscription = id := rfl
        rw [(remind_other hi hself).2, List.nil_append, hsent]
        refine congrArg _ (congrArg _ ?_)
        cases hdue : dueKey reminderDays now t id with
        | none => rfl
        | some k => simp [Option.filter, (remind_other hi (dueKey_subscription hdue).1).1]

/-- The day whose reminder is due in a pass, by the query and the whole days. -/
structure Matched (reminderDays : List ℤ) (expiry now queryNow d : ℤ) : Prop where
  window : ∀ m ∈ reminderDays, (∀ b ∈ reminderDays, b ≤ m) → expiry - now ≤ days m
  unexpired : queryNow < expiry
  matched : matchedDay (sortedDays reminderDays) (expiry - now) = some d

theorem Standing.mem_listExpiringSoon (hs : Standing id expiry t) {window : ℤ} :
    id ∈ listExpiringSoon t.subscriptions window queryNow ↔ expiry ≤ window ∧ queryNow < expiry := by
  obtain ⟨sub, hsub, hactive, rfl, -⟩ := hs
  simp [listExpiringSoon, Table.mem_select, hsub, hactive]

theorem nodup_listExpiringSoon (subs : Table Subscription) (window now : ℤ) :
    (listExpiringSoon subs window now).Nodup :=
  (List.perm_insertionSort _ _).nodup_iff.mpr (Table.select_nodup ..)

theorem Standing.dueKey (hs : Standing id expiry t) (hleft : now < expiry) :
    dueKey reminderDays now t id = (matchedDay reminderDays (expiry - now)).map fun d => ⟨id, d, expiry / days 1⟩ := by
  obtain ⟨sub, hsub, -, rfl, -⟩ := hs
  rw [Scheduler.dueKey, hsub, Option.bind_some, if_neg (by omega)]

/-- What a pass does for the subscription. -/
theorem Standing.pass (hs : Standing id expiry t) (hne : reminderDays ≠ []) (hclock : now ≤ queryNow) :
    (∀ d, (checkExpiringSubscriptions reminderDays now queryNow t).1.has ⟨id, d, expiry / days 1⟩ = true ↔
        t.has ⟨id, d, expiry / days 1⟩ = true ∨ Matched reminderDays expiry now queryNow d) ∧
      (∀ d, d ∈ daysSent id (checkExpiringSubscriptions reminderDays now queryNow t).2 ↔
        Matched reminderDays expiry now queryNow d ∧ t.has ⟨id, d, expiry / days 1⟩ = false) ∧
      (daysSent id (checkExpiringSubscriptions reminderDays now queryNow t).2).length ≤ 1 := by
  obtain ⟨m, hm, hmax, hlongest⟩ := exists_longest hne
  rw [checkExpiringSubscriptions, hmax]
  have hlisted : id ∈ listExpiringSoon t.subscriptions (now + days m) queryNow ↔ _ := hs.mem_listExpiringSoon
  have hwindow : expiry ≤ now + days m ↔ ∀ b ∈ reminderDays, (∀ c ∈ reminderDays, c ≤ b) → expiry - now ≤ days b := by
    constructor
    · intro h b hb hle
      obtain rfl : b = m := le_antisymm (hlongest b hb) (hle m hm)
      omega
    · intro h
      have := h m hm hlongest
      omega
  by_cases hmem : id ∈ listExpiringSoon t.subscriptions (now + days m) queryNow
  · obtain ⟨hin, hunexpired⟩ := hlisted.mp hmem
    obtain ⟨hhas, hsent⟩ := @Standing.remindAll (sortedDays reminderDays) id expiry now t hs _
      (nodup_listExpiringSoon t.subscriptions (now + days m) queryNow) hmem
    have hdue : Scheduler.dueKey (sortedDays reminderDays) now t id = _ := hs.dueKey (hclock.trans_lt hunexpired)
    have hmatched : ∀ d, Matched reminderDays expiry now queryNow d ↔
        matchedDay (sortedDays reminderDays) (expiry - now) = some d :=
      fun d => ⟨Matched.matched, fun h => ⟨hwindow.mp hin, hunexpired, h⟩⟩
    rw [hdue] at hhas hsent
    refine ⟨fun d => ?_, fun d => ?_, ?_⟩
    · rw [hhas _ rfl, hmatched]
      cases matchedDay (sortedDays reminderDays) (expiry - now) <;> simp
    · rw [hsent, hmatched]
      cases matchedDay (sortedDays reminderDays) (expiry - now) with
      | none => simp
      | some b =>
        by_cases hb : t.has ⟨id, b, expiry / days 1⟩ = true
        · simp only [Option.map_some, Option.filter, hb, Bool.not_true, Bool.false_eq_true, if_false, Option.map_none,
            Option.toList_none, List.not_mem_nil, Option.some.injEq, false_iff, not_and]
          rintro rfl
          simp [hb]
        · simp only [Bool.not_eq_true] at hb
          simp only [Option.map_some, Option.filter, hb, Bool.not_false, if_true, Option.toList_some,
            List.mem_singleton, Option.some.injEq]
          constructor
          · rintro rfl
            exact ⟨rfl, hb⟩
          · exact fun h => h.1.symm
    · rw [hsent]
      cases Option.map ReminderKey.days _ <;> simp
  · have hother (key : ReminderKey) (hkey : key.subscription = id) :=
      @remindAll_other (sortedDays reminderDays) id now t _ hmem key hkey
    have hnone : ∀ d, ¬ Matched reminderDays expiry now queryNow d :=
      fun d h => hmem (hlisted.mpr ⟨hwindow.mpr h.window, h.unexpired⟩)
    have hempty := (hother ⟨id, 0, 0⟩ rfl).2
    refine ⟨fun d => ?_, fun d => ?_, ?_⟩
    · rw [(hother _ rfl).1]
      simp [hnone d]
    · rw [hempty]
      simp [hnone d]
    · rw [hempty]
      simp

/-- In a pass with whole days left, the reminder that is matched is the one that is due. -/
theorem matched_iff (hne : reminderDays ≠ []) (hbefore : queryNow < expiry)
    (hwhole : WholeDays reminderDays expiry (.pass now queryNow)) :
    Matched reminderDays expiry now queryNow d ↔ IsLeast {d | d ∈ reminderDays ∧ expiry - now ≤ days d} d := by
  obtain ⟨m, hm, -, hlongest⟩ := exists_longest hne
  have hiff := matched_iff_due (d := d)
    ((mem_sortedDays hne).mpr hm) (fun b hb => hlongest b ((mem_sortedDays hne).mp hb))
    fun b hb hbm => hwhole hbefore b ((mem_sortedDays hne).mp hb) ⟨m, hm, hbm⟩
  simp only [mem_sortedDays hne] at hiff
  rw [← hiff]
  constructor
  · exact fun h => ⟨h.window m hm hlongest, h.matched⟩
  · rintro ⟨hwindow, hmatched⟩
    refine ⟨fun b hb hle => ?_, hbefore, hmatched⟩
    rwa [le_antisymm (hlongest b hb) (hle m hm)]

/-! ### Runs of passes -/

/-- The stored keys are those of the reminders sent, each of them once and none of them early. -/
structure Kept (id : SubscriptionId) (expiry : ℤ) (s : State) : Prop where
  standing : Standing id expiry s.tables
  keys : ∀ d, s.tables.has ⟨id, d, expiry / days 1⟩ = true ↔ d ∈ daysSent id s.sent
  nodup : (daysSent id s.sent).Nodup
  due : ∀ d ∈ daysSent id s.sent, expiry - s.clock ≤ days d

theorem Kept.mem_messages (hk : Kept id expiry s) (hne : reminderDays ≠ []) (hclock : now ≤ queryNow) :
    d ∈ daysSent id (messages reminderDays s (.pass now queryNow)) ↔
      Matched reminderDays expiry now queryNow d ∧ d ∉ daysSent id s.sent := by
  rw [messages, (hk.standing.pass hne hclock).2.1, ← Bool.not_eq_true, hk.keys]

theorem Kept.nodup_sent (hk : Kept id expiry s) (hne : reminderDays ≠ []) (hclock : now ≤ queryNow) :
    (daysSent id (s.sent ++ messages reminderDays s (.pass now queryNow))).Nodup := by
  have hlength : (daysSent id (messages reminderDays s (.pass now queryNow))).length ≤ 1 :=
    (hk.standing.pass hne hclock).2.2
  have hone : (daysSent id (messages reminderDays s (.pass now queryNow))).Nodup := by
    revert hlength
    match daysSent id (messages reminderDays s (.pass now queryNow)) with
    | [] => simp
    | [_] => simp
    | _ :: _ :: _ => simp
  rw [daysSent_append, List.nodup_append]
  refine ⟨hk.nodup, hone, fun a ha b hb => ?_⟩
  rintro rfl
  exact ((hk.mem_messages hne hclock).mp hb).2 ha

theorem Kept.onTime_step (hk : Kept id expiry s) (hne : reminderDays ≠ []) {a : Event} (ha : Allowed id expiry s a) :
    OnTime reminderDays id expiry s a ↔ WholeDays reminderDays expiry a := by
  cases a with
  | other tables => exact Iff.rfl
  | pass now queryNow =>
    obtain ⟨hclock, hquery⟩ := ha
    constructor
    · rintro ⟨hsends, -⟩ hbefore d hd ⟨longer, hlonger, hdl⟩
      by_contra hcut
      obtain ⟨hearly, hleft⟩ := not_or.mp hcut
      obtain ⟨m, hm, -, hlongest⟩ := exists_longest hne
      obtain ⟨hwindow, hmatched⟩ := matched_early ((mem_sortedDays hne).mpr hd) (hdl.trans_le (hlongest longer hlonger))
        (not_le.mp hearly) (not_le.mp hleft)
      -- had it been sent before, it would have been sent too early then
      have hnew : d ∉ daysSent id s.sent := by
        intro hsent
        have := hk.due d hsent
        exact hearly (by omega)
      have hsent : d ∈ daysSent id (messages reminderDays s (.pass now queryNow)) := by
        refine (hk.mem_messages hne hquery).mpr ⟨⟨fun b hb hle => ?_, hbefore, hmatched⟩, hnew⟩
        rwa [le_antisymm (hlongest b hb) (hle m hm)]
      exact hearly ((hsends hbefore d).mp hsent).1.1.2
    · intro hwhole
      refine ⟨fun hbefore d => ?_, fun hlate => ?_, hk.nodup_sent hne hquery⟩
      · rw [hk.mem_messages hne hquery, matched_iff hne hbefore hwhole]
      · refine List.eq_nil_iff_forall_not_mem.mpr fun d hd => ?_
        have := ((hk.mem_messages hne hquery).mp hd).1.unexpired
        omega

theorem Kept.step (hk : Kept id expiry s) (hne : reminderDays ≠ []) {a : Event} (ha : Allowed id expiry s a)
    (hwhole : WholeDays reminderDays expiry a) {u : State} (hstep : Scheduler.step reminderDays s a = some u) :
    Kept id expiry u := by
  cases a with
  | other tables =>
    obtain rfl := Option.some.inj hstep
    exact ⟨ha.1, fun d => by rw [ha.2 ⟨id, d, expiry / days 1⟩ rfl]; exact hk.keys d, hk.nodup, hk.due⟩
  | pass now queryNow =>
    obtain ⟨hclock, hquery⟩ := ha
    obtain rfl := Option.some.inj hstep
    have hrows : SameRows s.tables (checkExpiringSubscriptions reminderDays now queryNow s.tables).1 :=
      remindAll_sameRows _
    refine ⟨hk.standing.congr hrows, fun d => ?_, hk.nodup_sent hne hquery, fun d hd => ?_⟩
    · show (checkExpiringSubscriptions reminderDays now queryNow s.tables).1.has _ = true ↔ _
      rw [(hk.standing.pass hne hquery).1, hk.keys, daysSent_append, List.mem_append, hk.mem_messages hne hquery]
      tauto
    · rw [daysSent_append, List.mem_append, hk.mem_messages hne hquery] at hd
      show expiry - queryNow ≤ days d
      rcases hd with hd | ⟨hd, -⟩
      · have := hk.due d hd
        omega
      · have := ((matched_iff hne hd.unexpired hwhole).mp hd).1.2
        omega

/-- At every pass the subscription's reminders go out as they should exactly if no pass finds it
between `d` and `d + 1` days from its expiry, for a number of days `d` that is not the longest. -/
theorem onTime_iff {as : List Event} (hne : reminderDays ≠ [])
    (hs : Standing id expiry s.tables) (hnew : ∀ d, s.tables.has ⟨id, d, expiry / days 1⟩ = false)
    (hsent : daysSent id s.sent = []) (hallowed : Machine.Along (step reminderDays) (Allowed id expiry) s as) :
    Machine.Along (step reminderDays) (OnTime reminderDays id expiry) s as ↔
      Machine.Along (step reminderDays) (fun _ a => WholeDays reminderDays expiry a) s as := by
  have hk : Kept id expiry s := ⟨hs, fun d => by simp [hnew, hsent], by simp [hsent], by simp [hsent]⟩
  exact Machine.along_congr (fun s a hk ha => hk.onTime_step hne ha)
    (fun s a u hk ha hw hu => hk.step hne ha hw hu) hallowed hk

/-- One subscription, active until the tenth day. -/
def oneSubscription : Tables where
  users := [⟨5⟩]
  servers := [⟨"main"⟩]
  subscriptions := [{ userId := 0, orderId := 0, vpnServerId := 0, productId := 0, idHex8 := 0, status := .active
                      peerExternalId := none, peerLabel := none, configDeliveryStatus := .delivered
                      configRedeliveryCount := 0, startsAt := 0, expiresAt := days 10, disabledAt := none
                      removedAt := none }]
  notifications := []

theorem oneSubscription_standing : Standing 0 (days 10) oneSubscription := ⟨_, rfl, rfl, rfl, rfl, rfl⟩

/-- Seven days before and two and a half days before. -/
theorem onTime_iff_twice :
    Machine.Along (step [7, 3, 1]) (OnTime [7, 3, 1] 0 (days 10)) ⟨0, oneSubscription, []⟩
      [.pass (days 3) (days 3 + 5), .pass (days 7 + days 1 / 2) (days 8)] := by
  refine (onTime_iff (by simp) oneSubscription_standing (fun d => rfl) rfl ?_).mpr ?_
  · refine ⟨⟨by decide, by decide⟩, fun t ht => ⟨?_, fun _ _ => trivial⟩⟩
    obtain rfl := Option.some.inj ht
    exact ⟨by decide, by decide⟩
  · refine ⟨?_, fun t ht => ⟨?_, fun _ _ => trivial⟩⟩ <;> exact fun _ => by decide

/-- Three and a half days before, the reminder for three days goes out. -/
theorem not_onTime_halfDay :
    Standing 0 (days 10) oneSubscription ∧
      daysSent 0 (messages [7, 3, 1] ⟨0, oneSubscription, []⟩ (.pass (days 6 + days 1 / 2) (days 7))) = [3] ∧
      days 3 < days 10 - (days 6 + days 1 / 2) ∧
      ¬ Machine.Along (step [7, 3, 1]) (OnTime [7, 3, 1] 0 (days 10)) ⟨0, oneSubscription, []⟩
        [.pass (days 6 + days 1 / 2) (days 7)] := by
  have hsent : daysSent 0 (messages [7, 3, 1] ⟨0, oneSubscription, []⟩ (.pass (days 6 + days 1 / 2) (days 7))) =
    [3] := by decide
  refine ⟨oneSubscription_standing, hsent, by decide, fun h => ?_⟩
  have hdue := ((h.1.1 (by decide) 3).mp (by rw [hsent]; simp)).1.1.2
  exact absurd hdue (by decide)

end AmneziaVpnBot.Scheduler
