import AmneziaVpnBot.Lib.Machine
import AmneziaVpnBot.Db.Orders
import Mathlib.Logic.Function.Basic

/-! Presses on Approve and Reject that race for one order. Each handler runs in its own
session: it reads the order, decides, reads on, and at the end writes by primary key and
commits. A session never reads the order again, and no write is conditional on the
status it was decided from; only the unique key on `subscriptions.order_id` stops a
second new subscription. -/

namespace AmneziaVpnBot.Race

abbrev SessionId := ℕ

/-- Where a handler stands, with the rows its session holds. -/
inductive Session
  | idle
  /-- `callback_admin_approve_order` has checked the order's status. -/
  | approving (order : Order) (admin : TelegramId)
  /-- `approve_order_atomic` has found no subscription of the order. -/
  | unowned (order : Order) (admin : TelegramId)
  /-- Everything is read; the next step writes. -/
  | ready (approval : Approval)
  /-- `reject_order` has checked the order's status. -/
  | rejecting (order : Order) (admin : TelegramId)

structure State where
  now : ℤ
  db : Database
  sessions : SessionId → Session

def start (now : ℤ) (db : Database) : State := ⟨now, db, fun _ => .idle⟩

inductive Step
  | approve (i : SessionId) (admin : TelegramId)
  /-- `select(Subscription).where(Subscription.order_id == order.id)` -/
  | findOwn (i : SessionId)
  /-- Product, server and the subscription to renew. -/
  | prepare (i : SessionId)
  | commitApproval (i : SessionId) (idHex8 : ℕ)
  | reject (i : SessionId) (admin : TelegramId)
  | commitRejection (i : SessionId)
  | tick (d : ℕ)

def State.set (s : State) (i : SessionId) (k : Session) : State :=
  { s with sessions := Function.update s.sessions i k }

/-- The steps of the handlers for the order `o`. A handler that gives up goes back to idle. -/
def step (o : OrderId) (s : State) : Step → Option State
  | .approve i admin => match s.sessions i with
    | .idle => some (match s.db.orders[o]? with
      | some order => if order.awaitsReview then s.set i (.approving order admin) else s
      | none => s)
    | _ => none
  | .findOwn i => match s.sessions i with
    | .approving order admin =>
      if (subscriptionOfOrder s.db.subscriptions o).isSome || order.processed then some (s.set i .idle)
      else some (s.set i (.unowned order admin))
    | _ => none
  | .prepare i => match s.sessions i with
    | .unowned order admin => match s.db.products[order.productId]?, s.db.servers[order.vpnServerId]? with
      | some product, some _ =>
        let renewed := renewableSubscription s.db.subscriptions order
        some (s.set i (.ready ⟨order, renewed, product.durationDays, admin, s.now⟩))
      | _, _ => some (s.set i .idle)
    | _ => none
  | .commitApproval i idHex8 => match s.sessions i with
    | .ready a => some ({ s with db := (commitApproval s.db o a idHex8).getD s.db }.set i .idle)
    | _ => none
  | .reject i admin => match s.sessions i with
    | .idle => some (match s.db.orders[o]? with
      | some order => if order.processed then s else s.set i (.rejecting order admin)
      | none => s)
    | _ => none
  | .commitRejection i => match s.sessions i with
    | .rejecting order admin =>
      let db := commitRejection s.db o order admin (some rejectionReason) s.now
      some ({ s with db := db }.set i .idle)
    | _ => none
  | .tick d => some { s with now := s.now + d }

/-- The session whose review succeeds. -/
def emit (o : OrderId) (s : State) : Step → List SessionId
  | .commitApproval i idHex8 => match s.sessions i with
    | .ready a => if (commitApproval s.db o a idHex8).isSome then [i] else []
    | _ => []
  | .commitRejection i => match s.sessions i with
    | .rejecting _ _ => [i]
    | _ => []
  | _ => []

/-- No subscription's expiry is moved by more than one duration of the order's plan. -/
def MovedOnce (o : OrderId) (s u : State) : Prop :=
  ∀ (id : SubscriptionId) (sub : Subscription), s.db.subscriptions[id]? = some sub →
    ∃ sub' : Subscription, u.db.subscriptions[id]? = some sub' ∧ (sub'.expiresAt = sub.expiresAt ∨
      ∃ (t : ℤ) (order : Order) (product : Product), s.now ≤ t ∧ t ≤ u.now ∧ s.db.orders[o]? = some order ∧
        s.db.products[order.productId]? = some product ∧
        sub'.expiresAt = max sub.expiresAt t + days product.durationDays)

/-- At most one review in the run succeeds, and an expiry moves once at most. -/
def ReviewedOnce (o : OrderId) (s : State) (as : List Step) : Prop :=
  (Machine.log (step o) (emit o) s as).length ≤ 1 ∧
    ∀ u, Machine.run (step o) s as = some u → MovedOnce o s u

/-- A write finds the order in the status its session decided from, and does not reject a
rejected order. An insert that the unique key refuses writes nothing. -/
def StatusUnchanged (o : OrderId) (s : State) : Step → Prop
  | .commitApproval i _ => ∀ a, s.sessions i = .ready a →
    (s.db.orders[o]?).map Order.status = some a.order.status ∨
      a.renewed = none ∧ (subscriptionOfOrder s.db.subscriptions o).isSome
  | .commitRejection i => ∀ order admin, s.sessions i = .rejecting order admin →
    (s.db.orders[o]?).map Order.status = some order.status ∧ order.status ≠ .rejected
  | _ => True

variable {o : OrderId}

/-! ### What the sessions hold -/

/-- What a session has checked before it may write. -/
def Session.Checked : Session → Prop
  | .idle => True
  | .approving order _ | .unowned order _ => order.awaitsReview
  | .ready a => a.order.awaitsReview
  | .rejecting order _ => order.processed = false

/-- What a session holds was read from the database `db`, between the times `t` and `now`. -/
def Session.ReadFrom (o : OrderId) (db : Database) (t now : ℤ) : Session → Prop
  | .idle => True
  | .approving order _ | .unowned order _ | .rejecting order _ => db.orders[o]? = some order
  | .ready a => db.orders[o]? = some a.order ∧ a.renewed = renewableSubscription db.subscriptions a.order ∧
    (db.products[a.order.productId]?).map Product.durationDays = some a.durationDays ∧ t ≤ a.now ∧ a.now ≤ now

theorem forall_set {P : Session → Prop} {s : State} {i : SessionId} {k : Session}
    (h : ∀ j, P (s.sessions j)) (hk : P k) (j : SessionId) : P ((s.set i k).sessions j) := by
  by_cases hj : j = i
  · subst hj; simpa [State.set] using hk
  · simpa [State.set, Function.update_of_ne hj] using h j

theorem checked_step {s t : State} {a : Step} (h : ∀ j, (s.sessions j).Checked) (hstep : step o s a = some t) :
    ∀ j, (t.sessions j).Checked := by
  cases a with
  | approve i admin =>
    simp only [step] at hstep
    split at hstep <;> cases hstep
    split
    · split_ifs with hr
      · exact forall_set h hr
      · exact h
    · exact h
  | findOwn i =>
    simp only [step] at hstep
    split at hstep
    next order admin hi =>
      have hr : order.awaitsReview := by simpa [hi, Session.Checked] using h i
      split_ifs at hstep <;> cases hstep
      · exact forall_set h trivial
      · exact forall_set h hr
    · cases hstep
  | prepare i =>
    simp only [step] at hstep
    split at hstep
    next order admin hi =>
      have hr : order.awaitsReview := by simpa [hi, Session.Checked] using h i
      split at hstep <;> cases hstep
      · exact forall_set h hr
      · exact forall_set h trivial
    · cases hstep
  | commitApproval i idHex8 =>
    simp only [step] at hstep
    split at hstep <;> cases hstep
    exact forall_set (s := { s with db := _ }) h trivial
  | reject i admin =>
    simp only [step] at hstep
    split at hstep <;> cases hstep
    split
    · split_ifs with hp
      · exact h
      · exact forall_set h (by simpa [Session.Checked] using hp)
    · exact h
  | commitRejection i =>
    simp only [step] at hstep
    split at hstep <;> cases hstep
    exact forall_set (s := { s with db := _ }) h trivial
  | tick d => cases hstep; exact h

theorem Session.ReadFrom.mono {db : Database} {t now now' : ℤ} (hnow : now ≤ now') :
    ∀ {k : Session}, k.ReadFrom o db t now → k.ReadFrom o db t now'
  | .idle, _ => trivial
  | .approving _ _, h | .unowned _ _, h | .rejecting _ _, h => h
  | .ready _, ⟨ho, hr, hd, ht, hn⟩ => ⟨ho, hr, hd, ht, hn.trans hnow⟩

/-- Before the first success: the database is as at the start, and so is what the sessions read. -/
structure Fresh (o : OrderId) (s₀ s : State) : Prop where
  db : s.db = s₀.db
  now : s₀.now ≤ s.now
  checked : ∀ j, (s.sessions j).Checked
  readFrom : ∀ j, (s.sessions j).ReadFrom o s₀.db s₀.now s.now

/-- After the first success: the order is reviewed, and an expiry moved once at most. -/
structure Done (o : OrderId) (s₀ s : State) : Prop where
  moved : MovedOnce o s₀ s
  checked : ∀ j, (s.sessions j).Checked
  reviewed : ∃ order, s.db.orders[o]? = some order ∧
    (order.status = .provisioning ∨ order.status = .fulfilled ∨ order.status = .rejected)

theorem Fresh.start (now : ℤ) (db : Database) : Fresh o (start now db) (start now db) :=
  ⟨rfl, le_rfl, fun _ => trivial, fun _ => trivial⟩

theorem Fresh.movedOnce {s₀ s : State} (h : Fresh o s₀ s) : MovedOnce o s₀ s :=
  fun _ sub hs => ⟨sub, by rw [h.db]; exact hs, .inl rfl⟩

theorem Fresh.set {s₀ s : State} {i : SessionId} {k : Session} (h : Fresh o s₀ s) (hc : k.Checked)
    (hr : k.ReadFrom o s₀.db s₀.now s.now) : Fresh o s₀ (s.set i k) :=
  ⟨h.db, h.now, forall_set h.checked hc, forall_set h.readFrom hr⟩

/-- The commit of an approval whose reads are still current moves its subscription once. -/
theorem Fresh.commit {s₀ s : State} {a : Approval} {i : SessionId} {idHex8 : ℕ} {db : Database}
    (h : Fresh o s₀ s) (hi : s.sessions i = .ready a) (hdb : commitApproval s.db o a idHex8 = some db) :
    Done o s₀ ({ s with db := db }.set i .idle) := by
  obtain ⟨ho, hren, hdays, hle, hge⟩ : (Session.ready a).ReadFrom o s₀.db s₀.now s.now := hi ▸ h.readFrom i
  obtain ⟨product, hp, hd⟩ := Option.map_eq_some_iff.mp hdays
  have hchecked := forall_set (s := { s with db := db }) (i := i) (k := .idle) h.checked trivial
  unfold commitApproval at hdb
  cases hn : a.renewed with
  | some p =>
    obtain ⟨id, sub⟩ := p
    simp only [hn, Option.some.injEq] at hdb
    subst hdb
    obtain ⟨-, hsub, -⟩ := renewableSubscription_eq_some.mp (hren.symm.trans hn)
    refine ⟨fun j r hr => ?_, hchecked, _, by simp [State.set, commitRenewal, Table.get_update, h.db, ho]; rfl,
      .inr (.inl (by simp [Approval.reviewed]))⟩
    by_cases hj : id = j
    · subst hj
      rw [hsub] at hr
      cases hr
      refine ⟨sub.renew a.now a.durationDays, by simp [State.set, commitRenewal, Table.get_update, h.db, hsub],
        .inr ⟨a.now, a.order, product, hle, hge, ho, hp, by simp [Subscription.renew, hd]⟩⟩
    · exact ⟨r, by simp [State.set, commitRenewal, Table.get_update, hj, h.db, hr], .inl rfl⟩
  | none =>
    simp only [hn, Option.ite_none_left_eq_some, Option.some.injEq] at hdb
    obtain ⟨-, rfl⟩ := hdb
    refine ⟨fun j r hr => ⟨r, ?_, .inl rfl⟩, hchecked, _,
      by simp [State.set, commitNew, Table.get_update, h.db, ho]; rfl, .inl (by simp [Approval.reviewed])⟩
    exact Table.get_insert_of_some _ (by rw [h.db]; exact hr)

theorem Fresh.reject {s₀ s : State} {order : Order} {admin : TelegramId} {i : SessionId}
    (h : Fresh o s₀ s) (hi : s.sessions i = .rejecting order admin) :
    Done o s₀ ({ s with db := commitRejection s.db o order admin (some rejectionReason) s.now }.set i .idle) := by
  have ho : s₀.db.orders[o]? = some order := by simpa [hi, Session.ReadFrom] using h.readFrom i
  refine ⟨fun j r hr => ⟨r, by simpa [State.set, commitRejection, h.db] using hr, .inl rfl⟩,
    forall_set (s := { s with db := _ }) h.checked trivial, _,
    by simp [State.set, commitRejection, Table.get_update, h.db, ho]; rfl, .inr (.inr (by simp))⟩

/-- Before the first success a step succeeds or keeps the start in place. -/
theorem Fresh.step {s₀ s t : State} {a : Step} (h : Fresh o s₀ s) (hstep : step o s a = some t) :
    emit o s a = [] ∧ Fresh o s₀ t ∨ (emit o s a).length = 1 ∧ Done o s₀ t := by
  have hchecked := checked_step h.checked hstep
  cases a with
  | approve i admin =>
    simp only [Race.step] at hstep
    refine .inl ⟨rfl, ?_⟩
    split at hstep <;> cases hstep
    split
    next order ho =>
      split_ifs with hr
      · exact h.set hr (h.db ▸ ho)
      · exact h
    · exact h
  | findOwn i =>
    simp only [Race.step] at hstep
    refine .inl ⟨rfl, ?_⟩
    split at hstep
    next order admin hi =>
      split_ifs at hstep <;> cases hstep
      · exact h.set trivial trivial
      · exact h.set (by simpa [hi, Session.Checked] using h.checked i)
          (by simpa [hi, Session.ReadFrom] using h.readFrom i)
    · cases hstep
  | prepare i =>
    simp only [Race.step] at hstep
    refine .inl ⟨rfl, ?_⟩
    split at hstep
    next order admin hi =>
      split at hstep <;> cases hstep
      next product server hp hv =>
        have ho : s₀.db.orders[o]? = some order := by simpa [hi, Session.ReadFrom] using h.readFrom i
        refine h.set (by simpa [hi, Session.Checked] using h.checked i) ⟨ho, by rw [h.db], ?_, h.now, le_rfl⟩
        simp [← h.db, hp]
      · exact h.set trivial trivial
    · cases hstep
  | commitApproval i idHex8 =>
    simp only [Race.step] at hstep
    split at hstep <;> cases hstep
    next a hi =>
      simp only [emit, hi]
      cases hdb : commitApproval s.db o a idHex8 with
      | none =>
        refine .inl ⟨by simp, ?_⟩
        exact h.set trivial trivial
      | some db => exact .inr ⟨by simp, h.commit hi hdb⟩
  | reject i admin =>
    simp only [Race.step] at hstep
    refine .inl ⟨rfl, ?_⟩
    split at hstep <;> cases hstep
    split
    next order ho =>
      split_ifs with hp
      · exact h
      · exact h.set (by simpa [Session.Checked] using hp) (h.db ▸ ho)
    · exact h
  | commitRejection i =>
    simp only [Race.step] at hstep
    split at hstep <;> cases hstep
    next order admin hi => exact .inr ⟨by simp [emit, hi], h.reject hi⟩
  | tick d =>
    cases hstep
    have hle : s.now ≤ s.now + d := by omega
    exact .inl ⟨rfl, h.db, h.now.trans hle, h.checked, fun j => (h.readFrom j).mono hle⟩

theorem Done.step {s₀ s t : State} {a : Step} (h : Done o s₀ s) (hg : StatusUnchanged o s a)
    (hstep : step o s a = some t) : emit o s a = [] ∧ Done o s₀ t := by
  have hchecked := checked_step h.checked hstep
  have hsame {t : State} (hc : ∀ j, (t.sessions j).Checked) (hdb : t.db = s.db) (hnow : s.now ≤ t.now) :
      Done o s₀ t := by
    refine ⟨fun id sub hs => ?_, hc, hdb ▸ h.reviewed⟩
    obtain ⟨sub', hs', hm | ⟨v, order, product, hv, hvs, hrest⟩⟩ := h.moved id sub hs
    · exact ⟨sub', by rw [hdb]; exact hs', .inl hm⟩
    · exact ⟨sub', by rw [hdb]; exact hs', .inr ⟨v, order, product, hv, hvs.trans hnow, hrest⟩⟩
  obtain ⟨order, ho, hstatus⟩ := h.reviewed
  cases a with
  | approve i admin =>
    simp only [Race.step] at hstep
    split at hstep <;> cases hstep
    refine ⟨rfl, hsame hchecked ?_ ?_⟩ <;> (simp only [ho]; split_ifs <;> simp [State.set])
  | findOwn i =>
    simp only [Race.step] at hstep
    split at hstep
    · split_ifs at hstep <;> cases hstep <;> exact ⟨rfl, hsame hchecked rfl le_rfl⟩
    · cases hstep
  | prepare i =>
    simp only [Race.step] at hstep
    split at hstep
    · split at hstep <;> cases hstep <;> exact ⟨rfl, hsame hchecked rfl le_rfl⟩
    · cases hstep
  | commitApproval i idHex8 =>
    simp only [Race.step] at hstep
    split at hstep <;> cases hstep
    next a hi =>
      have hr : a.order.awaitsReview := by simpa [hi, Session.Checked] using h.checked i
      rcases hg a hi with hst | ⟨hn, hown⟩
      · -- the status the session decided from is not that of a reviewed order
        simp only [ho, Option.map_some, Option.some.injEq] at hst
        simp only [Order.awaitsReview, ← hst] at hr
        rcases hstatus with hs | hs | hs <;> simp [hs] at hr
      · have hdb : commitApproval s.db o a idHex8 = none := by simp [commitApproval, hn, hown]
        simp only [emit, hi, hdb, Option.isSome_none, Bool.false_eq_true, ↓reduceIte, Option.getD_none,
          true_and]
        exact hsame (by simpa [hdb] using hchecked) rfl le_rfl
  | reject i admin =>
    simp only [Race.step] at hstep
    split at hstep <;> cases hstep
    refine ⟨rfl, hsame hchecked ?_ ?_⟩ <;> (simp only [ho]; split_ifs <;> simp [State.set])
  | commitRejection i =>
    simp only [Race.step] at hstep
    split at hstep <;> cases hstep
    next order' admin hi =>
      have hp : order'.processed = false := by simpa [hi, Session.Checked] using h.checked i
      obtain ⟨hst, hne⟩ := hg order' admin hi
      simp only [ho, Option.map_some, Option.some.injEq] at hst
      simp only [Order.processed, ← hst] at hp hne
      rcases hstatus with hs | hs | hs <;> simp [hs] at hp hne
  | tick d =>
    cases hstep
    exact ⟨rfl, hsame h.checked rfl (by simp only; omega)⟩

theorem Done.run {s₀ u : State} {as : List Step} :
    ∀ {s : State}, Done o s₀ s → Machine.Along (Race.step o) (StatusUnchanged o) s as →
      Machine.log (Race.step o) (emit o) s as = [] ∧
        (Machine.run (Race.step o) s as = some u → MovedOnce o s₀ u) := by
  induction as with
  | nil => exact fun h _ => ⟨rfl, fun hu => by cases hu; exact h.moved⟩
  | cons a as ih =>
    intro s h hg
    cases ht : Race.step o s a with
    | none => exact ⟨Machine.log_of_none ht, fun hu => by simp [ht] at hu⟩
    | some t =>
      rw [Machine.along_cons ht] at hg
      obtain ⟨he, hd⟩ := h.step hg.1 ht
      obtain ⟨hlog, hrun⟩ := ih hd hg.2
      exact ⟨by rw [Machine.log_cons ht, he, hlog]; rfl, fun hu => hrun (by simpa [ht] using hu)⟩

theorem Fresh.run {s₀ u : State} {as : List Step} :
    ∀ {s : State}, Fresh o s₀ s → Machine.Along (Race.step o) (StatusUnchanged o) s as →
      (Machine.log (Race.step o) (emit o) s as).length ≤ 1 ∧
        (Machine.run (Race.step o) s as = some u → MovedOnce o s₀ u) := by
  induction as with
  | nil => exact fun h _ => ⟨by simp, fun hu => by cases hu; exact h.movedOnce⟩
  | cons a as ih =>
    intro s h hg
    cases ht : Race.step o s a with
    | none => exact ⟨by simp [Machine.log_of_none ht], fun hu => by simp [ht] at hu⟩
    | some t =>
      rw [Machine.along_cons ht] at hg
      rw [Machine.log_cons ht, List.length_append]
      rcases h.step ht with ⟨he, hf⟩ | ⟨he, hd⟩
      · obtain ⟨hlen, hrun⟩ := ih hf hg.2
        exact ⟨by simpa [he] using hlen, fun hu => hrun (by simpa [ht] using hu)⟩
      · obtain ⟨hlog, hrun⟩ := hd.run (u := u) hg.2
        exact ⟨by simp [he, hlog], fun hu => hrun (by simpa [ht] using hu)⟩

/-! ### The guard is needed -/

theorem statusUnchanged_of_silent {s : State} {a : Step} (h : emit o s a = []) : StatusUnchanged o s a := by
  cases a with
  | commitApproval i idHex8 =>
    intro a hi
    simp only [emit, hi, Option.isSome_iff_ne_none, ne_eq, ite_eq_right_iff, reduceCtorEq, imp_false,
      not_not] at h
    unfold commitApproval at h
    cases hn : a.renewed with
    | some p => simp [hn] at h
    | none => exact .inr ⟨rfl, by simpa [hn, Option.isSome_iff_ne_none] using h⟩
  | commitRejection i =>
    intro order admin hi
    simp [emit, hi] at h
  | _ => trivial

theorem Fresh.statusUnchanged {s₀ s : State} {a : Step} (h : Fresh o s₀ s)
    (hrej : (s₀.db.orders[o]?).map Order.status ≠ some .rejected) : StatusUnchanged o s a := by
  cases a with
  | commitApproval i idHex8 =>
    intro a hi
    have hr : (Session.ready a).ReadFrom o s₀.db s₀.now s.now := hi ▸ h.readFrom i
    exact .inl (by rw [h.db, hr.1]; rfl)
  | commitRejection i =>
    intro order admin hi
    have ho : s₀.db.orders[o]? = some order := by simpa [hi, Session.ReadFrom] using h.readFrom i
    exact ⟨by rw [h.db, ho]; rfl, fun hs => hrej (by simp [ho, hs])⟩
  | _ => trivial

theorem statusUnchanged_of_none {s : State} {a : Step} (h : Race.step o s a = none) : StatusUnchanged o s a := by
  cases a with
  | commitApproval i idHex8 =>
    intro a hi
    simp [Race.step, hi] at h
  | commitRejection i =>
    intro order admin hi
    simp [Race.step, hi] at h
  | _ => trivial

theorem along_of_log_nil {as : List Step} :
    ∀ {s : State}, Machine.log (Race.step o) (emit o) s as = [] →
      Machine.Along (Race.step o) (StatusUnchanged o) s as := by
  induction as with
  | nil => exact fun _ => trivial
  | cons a as ih =>
    intro s h
    cases ht : Race.step o s a with
    | none => exact ⟨statusUnchanged_of_none ht, fun t hst => by simp [ht] at hst⟩
    | some t =>
      rw [Machine.log_cons ht, List.append_eq_nil_iff] at h
      exact (Machine.along_cons ht).mpr ⟨statusUnchanged_of_silent h.1, ih h.2⟩

/-- From the start, a run with at most one success meets the guard. -/
theorem Fresh.along {s₀ : State} {as : List Step}
    (hrej : (s₀.db.orders[o]?).map Order.status ≠ some .rejected) :
    ∀ {s : State}, Fresh o s₀ s → (Machine.log (Race.step o) (emit o) s as).length ≤ 1 →
      Machine.Along (Race.step o) (StatusUnchanged o) s as := by
  induction as with
  | nil => exact fun _ _ => trivial
  | cons a as ih =>
    intro s h hlen
    cases ht : Race.step o s a with
    | none => exact ⟨h.statusUnchanged hrej, fun t hst => by simp [ht] at hst⟩
    | some t =>
      rw [Machine.log_cons ht, List.length_append] at hlen
      refine (Machine.along_cons ht).mpr ⟨h.statusUnchanged hrej, ?_⟩
      rcases h.step ht with ⟨he, hf⟩ | ⟨he, -⟩
      · exact ih hf (by simpa [he] using hlen)
      · exact along_of_log_nil (List.eq_nil_of_length_eq_zero (by omega))

/-- Of the reviews that race for an order at most one succeeds, and its subscription's
expiry moves once at most, when every write finds the status its session decided from;
for an order that was not rejected before, only then. -/
theorem reviewedOnce_iff (o : OrderId) (now : ℤ) (db : Database) (as : List Step) :
    (Machine.Along (Race.step o) (StatusUnchanged o) (start now db) as → ReviewedOnce o (start now db) as) ∧
    ((db.orders[o]?).map Order.status ≠ some .rejected → ReviewedOnce o (start now db) as →
      Machine.Along (Race.step o) (StatusUnchanged o) (start now db) as) := by
  have hfresh : Fresh o (start now db) (start now db) := .start now db
  constructor
  · intro hg
    exact ⟨((hfresh.run (u := start now db)) hg).1, fun u hu => (hfresh.run hg).2 hu⟩
  · intro hrej h
    exact hfresh.along hrej h.1

/-- Two presses on Approve for a renewal. Both sessions read the order before either
writes, and the second reads the subscription after the first has committed: the
customer pays for one plan and gets two. -/
theorem reviewedOnce_two_presses :
    ¬ ∀ (o : OrderId) (now : ℤ) (db : Database) (as : List Step), ReviewedOnce o (start now db) as := by
  intro h
  let sub : Subscription := ⟨0, 0, 0, 0, 1, .active, some ⟨1000, 1, "nl-1"⟩, some ⟨1000, 1, "nl-1"⟩,
    .delivered, 0, 0, days 30, none, none⟩
  let db : Database := ⟨[⟨1000⟩], [⟨"nl-1"⟩], [⟨30⟩],
    [{ newOrder 0 0 0 none with status := .fulfilled },
      { newOrder 0 0 0 (some 0) with status := .receiptSubmitted }], [sub], [], [], []⟩
  let presses : List Step := [.approve 0 7, .approve 1 8, .findOwn 0, .findOwn 1,
    .prepare 0, .commitApproval 0 2, .prepare 1, .commitApproval 1 3]
  have hlen := (h 1 0 db presses).1
  revert hlen
  decide

end AmneziaVpnBot.Race
