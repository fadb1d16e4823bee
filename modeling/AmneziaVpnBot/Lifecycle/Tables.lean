import AmneziaVpnBot.Lifecycle.System
import Mathlib.Logic.Relation

/-! What the subscription and job tables keep from transaction to transaction, and the
few ways in which a transaction outside the worker changes them: it leaves them alone,
adds a job, requeues one that failed for good, adds or takes time, or makes a new
subscription with its create job. Every handler is one such change, and a scheduler pass
is a row of them. -/

namespace AmneziaVpnBot

/-- A subscription waits for its peer, or has had one and is in use, off or removed. -/
def Subscription.Sound (sub : Subscription) : Prop :=
  match sub.peerExternalId with
  | none => sub.status = .provisioning ∧ sub.removedAt = none
  | some _ => sub.status = .active ∨ sub.status = .disabled ∨ sub.status = .expired

/-- A job is of a kind its subscription can have. -/
def Job.Fits (job : Job) (sub : Subscription) : Prop :=
  match job.jobType with
  | .createPeer => job.status ≠ .succeeded → sub.peerExternalId = none
  | .enablePeer => sub.peerExternalId.isSome
  | .disablePeer | .removePeer => Worker.expiryReason job.reason
  | .redeliverConfig => True

namespace Lifecycle

structure Tables (servers : Table VpnServer) (subs : Table Subscription) (jobs : Table Job) : Prop where
  server : subs.All fun _ sub => ∃ server, servers[sub.vpnServerId]? = some server
  sound : subs.All fun _ sub => sub.Sound
  peerUnique : ∀ (i j : SubscriptionId) (a b : Subscription) (n : PeerName), subs[i]? = some a → subs[j]? = some b →
    a.peerExternalId = some n → b.peerExternalId = some n → i = j
  fits : jobs.All fun _ job => ∃ sub, subs[job.aggregateId]? = some sub ∧ job.Fits sub
  createOnce : ∀ (i j : JobId) (a b : Job), jobs[i]? = some a → jobs[j]? = some b → a.jobType = .createPeer →
    b.jobType = .createPeer → a.aggregateId = b.aggregateId → i = j

variable {servers : Table VpnServer} {subs : Table Subscription} {jobs : Table Job}

/-! ### Rows of a subscription and of a job -/

/-- A row update that keeps the peer of a subscription. -/
structure SamePeer (sub sub' : Subscription) : Prop where
  order : sub'.orderId = sub.orderId
  server : sub'.vpnServerId = sub.vpnServerId
  peer : sub'.peerExternalId = sub.peerExternalId

/-- A row update that keeps what a job is for, and does not reopen a finished job. -/
structure SameJob (job job' : Job) : Prop where
  jobType : job'.jobType = job.jobType
  aggregateId : job'.aggregateId = job.aggregateId
  reason : job'.reason = job.reason
  status : job'.status ≠ .succeeded → job.status ≠ .succeeded

theorem SamePeer.refl (sub : Subscription) : SamePeer sub sub := ⟨rfl, rfl, rfl⟩

theorem SamePeer.trans {a b c : Subscription} (h : SamePeer a b) (h' : SamePeer b c) : SamePeer a c :=
  ⟨h'.order.trans h.order, h'.server.trans h.server, h'.peer.trans h.peer⟩

theorem SamePeer.fits {sub sub' : Subscription} {job : Job} (h : SamePeer sub sub') (hf : job.Fits sub) :
    job.Fits sub' := by
  unfold Job.Fits at hf ⊢
  rw [h.peer]
  exact hf

theorem SameJob.fits {job job' : Job} {sub : Subscription} (h : SameJob job job') (hf : job.Fits sub) :
    job'.Fits sub := by
  unfold Job.Fits at hf ⊢
  rw [h.jobType, h.reason]
  split at hf
  · exact fun hs => hf (h.status hs)
  · exact hf
  · exact hf
  · exact hf
  · trivial

theorem SameJob.claim (w : WorkerId) {now : ℤ} {job : Job} (h : job.claimable now) : SameJob job (job.claim w now) :=
  ⟨rfl, rfl, rfl, fun _ hs => Job.not_claimable_of_succeeded hs h⟩

theorem SameJob.markCompleted (job : Job) : SameJob job job.markCompleted :=
  ⟨rfl, rfl, rfl, fun h => absurd rfl h⟩

theorem SameJob.markFailed (error : String) (r : Bool) (now : ℤ) {job : Job} (h : job.status ≠ .succeeded) :
    SameJob job (job.markFailed error r now) := by
  refine ⟨?_, ?_, ?_, fun _ => h⟩ <;> (simp only [Job.markFailed]; split_ifs <;> rfl)

theorem SameJob.requeue (now : ℤ) {job : Job} (h : job.status ≠ .succeeded) : SameJob job (job.requeue now) :=
  ⟨rfl, rfl, rfl, fun _ => h⟩

/-! ### The tables under the primitive changes -/

theorem Tables.updateJob {id : JobId} {f : Job → Job} (h : Tables servers subs jobs)
    (hf : ∀ job, jobs[id]? = some job → SameJob job (f job)) : Tables servers subs (jobs.update id f) := by
  have hold : ∀ {j : JobId} {job' : Job}, (jobs.update id f)[j]? = some job' → ∃ job, jobs[j]? = some job ∧
    SameJob job job' := by
    intro j job' hj
    rw [Table.get_update] at hj
    split_ifs at hj with hij
    · obtain ⟨job, hjob, rfl⟩ := Option.map_eq_some_iff.mp hj
      exact ⟨job, hjob, hf job (hij ▸ hjob)⟩
    · exact ⟨job', hj, rfl, rfl, rfl, fun h => h⟩
  refine ⟨h.server, h.sound, h.peerUnique, fun j job' hj => ?_, fun i j a b hi hj ha hb hab => ?_⟩
  · obtain ⟨job, hjob, hsame⟩ := hold hj
    obtain ⟨sub, hsub, hfits⟩ := h.fits j job hjob
    exact ⟨sub, by rw [hsame.aggregateId]; exact hsub, hsame.fits hfits⟩
  · obtain ⟨a', ha', hsa⟩ := hold hi
    obtain ⟨b', hb', hsb⟩ := hold hj
    refine h.createOnce i j a' b' ha' hb' ?_ ?_ ?_
    · rw [← hsa.jobType, ha]
    · rw [← hsb.jobType, hb]
    · rw [← hsa.aggregateId, ← hsb.aggregateId, hab]

theorem Tables.insertJob {job : Job} {sub : Subscription} (h : Tables servers subs jobs)
    (hsub : subs[job.aggregateId]? = some sub) (hfits : job.Fits sub)
    (hcreate : job.jobType = .createPeer → ∀ (j : JobId) (b : Job), jobs[j]? = some b → b.jobType = .createPeer →
      b.aggregateId ≠ job.aggregateId) :
    Tables servers subs (jobs.insert job) := by
  refine ⟨h.server, h.sound, h.peerUnique, h.fits.insert ⟨sub, hsub, hfits⟩, fun i j a b hi hj ha hb hab => ?_⟩
  rw [Table.get_insert] at hi hj
  split_ifs at hi hj with hin hjn hjn
  · rw [hin, hjn]
  · cases hi
    exact absurd hab.symm (hcreate ha j b hj hb)
  · cases hj
    exact absurd hab (hcreate hb i a hi ha)
  · exact h.createOnce i j a b hi hj ha hb hab

theorem Tables.updateSub {i : SubscriptionId} {f : Subscription → Subscription} (h : Tables servers subs jobs)
    (hf : ∀ sub, subs[i]? = some sub → SamePeer sub (f sub) ∧ (f sub).Sound) :
    Tables servers (subs.update i f) jobs := by
  have hold : ∀ {j : SubscriptionId} {sub' : Subscription}, (subs.update i f)[j]? = some sub' →
    ∃ sub, subs[j]? = some sub ∧ SamePeer sub sub' := by
    intro j sub' hj
    rw [Table.get_update] at hj
    split_ifs at hj with hij
    · obtain ⟨sub, hsub, rfl⟩ := Option.map_eq_some_iff.mp hj
      exact ⟨sub, hsub, (hf sub (hij ▸ hsub)).1⟩
    · exact ⟨sub', hj, rfl, rfl, rfl⟩
  refine ⟨?_, h.sound.update fun sub hsub _ => (hf sub hsub).2, fun j k a b n hj hk ha hb => ?_,
    fun j job hj => ?_, h.createOnce⟩
  · exact h.server.update fun sub hsub hs => by rw [(hf sub hsub).1.server]; exact hs
  · obtain ⟨a', ha', hsa⟩ := hold hj
    obtain ⟨b', hb', hsb⟩ := hold hk
    exact h.peerUnique j k a' b' n ha' hb' (hsa.peer ▸ ha) (hsb.peer ▸ hb)
  · obtain ⟨sub, hsub, hfits⟩ := h.fits j job hj
    by_cases hij : i = job.aggregateId
    · refine ⟨f sub, by rw [Table.get_update, if_pos hij, hsub]; rfl, ?_⟩
      exact (hf sub (hij ▸ hsub)).1.fits hfits
    · exact ⟨sub, by rw [Table.get_update_of_ne _ _ hij]; exact hsub, hfits⟩

/-- A new subscription waits for its peer, and no job is about it yet. -/
theorem Tables.insertSub {sub : Subscription} (h : Tables servers subs jobs)
    (hserver : ∃ server, servers[sub.vpnServerId]? = some server) (hpeer : sub.peerExternalId = none)
    (hsound : sub.Sound) : Tables servers (subs.insert sub) jobs := by
  have hold : ∀ {j : SubscriptionId} {sub' : Subscription} {n : PeerName}, (subs.insert sub)[j]? = some sub' →
    sub'.peerExternalId = some n →
      subs[j]? = some sub' := by
    intro j sub' n hj hn
    rw [Table.get_insert] at hj
    split_ifs at hj
    · cases hj; simp [hpeer] at hn
    · exact hj
  refine ⟨h.server.insert hserver, h.sound.insert hsound, fun j k a b n hj hk ha hb => ?_, fun j job hj => ?_,
    h.createOnce⟩
  · exact h.peerUnique j k a b n (hold hj ha) (hold hk hb) ha hb
  · obtain ⟨sub', hsub, hfits⟩ := h.fits j job hj
    exact ⟨sub', Table.get_insert_of_some _ hsub, hfits⟩

theorem Tables.aggregate_ne_fresh {j : JobId} {job : Job} (h : Tables servers subs jobs) (hj : jobs[j]? = some job) :
    job.aggregateId ≠ subs.fresh := by
  obtain ⟨sub, hsub, -⟩ := h.fits j job hj
  intro he
  rw [he, Table.get_fresh] at hsub
  cases hsub

/-- A create job's success gives its subscription a peer no other subscription has. -/
theorem Tables.activate {i : SubscriptionId} (n : PeerName) {f : Subscription → Subscription}
    (h : Tables servers subs jobs)
    (hdone : ∀ (j : JobId) (job : Job), jobs[j]? = some job → job.jobType = .createPeer → job.aggregateId = i →
      job.status = .succeeded)
    (hfree : ∀ (j : SubscriptionId) (sub : Subscription), subs[j]? = some sub → j ≠ i → sub.peerExternalId ≠ some n)
    (hf : ∀ sub, subs[i]? = some sub →
      (f sub).vpnServerId = sub.vpnServerId ∧ (f sub).peerExternalId = some n ∧ (f sub).Sound) :
    Tables servers (subs.update i f) jobs := by
  have hother : ∀ {j : SubscriptionId} {sub' : Subscription}, j ≠ i → (subs.update i f)[j]? = some sub' →
    subs[j]? = some sub' := by
    intro j sub' hj hs
    rwa [Table.get_update_of_ne _ _ hj.symm] at hs
  refine ⟨h.server.update fun sub hsub hs => by rw [(hf sub hsub).1]; exact hs,
    h.sound.update fun sub hsub _ => (hf sub hsub).2.2, fun j k a b m hj hk ha hb => ?_, fun j job hj => ?_,
    h.createOnce⟩
  · have hself : ∀ {sub' : Subscription}, (subs.update i f)[i]? = some sub' → sub'.peerExternalId = some n := by
      intro sub' hs
      rw [Table.get_update_self] at hs
      obtain ⟨sub, hsub, rfl⟩ := Option.map_eq_some_iff.mp hs
      exact (hf sub hsub).2.1
    by_cases hji : j = i
    · by_cases hki : k = i
      · rw [hji, hki]
      · subst hji
        have hm := (hself hj).symm.trans ha
        exact absurd (hb.trans hm.symm) (hfree k b (hother hki hk) hki)
    · by_cases hki : k = i
      · subst hki
        have hm := (hself hk).symm.trans hb
        exact absurd (ha.trans hm.symm) (hfree j a (hother hji hj) hji)
      · exact h.peerUnique j k a b m (hother hji hj) (hother hki hk) ha hb
  · obtain ⟨sub, hsub, hfits⟩ := h.fits j job hj
    by_cases hij : i = job.aggregateId
    · refine ⟨f sub, by rw [Table.get_update, if_pos hij, hsub]; rfl, ?_⟩
      obtain ⟨-, hpeer, -⟩ := hf sub (hij ▸ hsub)
      unfold Job.Fits at hfits ⊢
      split at hfits
      · next ht => exact fun hs => absurd (hdone j job hj ht hij.symm) hs
      · simp [hpeer]
      · exact hfits
      · exact hfits
      · trivial
    · exact ⟨sub, by rw [Table.get_update_of_ne _ _ hij]; exact hsub, hfits⟩

end Lifecycle

end AmneziaVpnBot
