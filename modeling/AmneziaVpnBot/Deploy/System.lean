import AmneziaVpnBot.Lifecycle.OpenJobs
import AmneziaVpnBot.Vpnctl.Again

/-! The bot with the servers it runs on: the database, the scheduler and the worker as
before, and `vpnctl` itself on every VPN host. The worker's call is one request to
`vpnctl`, whose answer may get lost on its way back. -/

namespace AmneziaVpnBot.Deploy

open Lifecycle (Failure Phase setPeer)
open Worker (Work)

/-! ### Names -/

def intText (z : ℤ) : Text := if z < 0 then '-' :: Nat.toDigits 10 z.natAbs else Nat.toDigits 10 z.natAbs

/-- `safe_sub_id[:8]` -/
def hex8Text (n : ℕ) : Text := List.replicate (8 - (Nat.toDigits 16 n).length) '0' ++ Nat.toDigits 16 n

/-- `f"user_{telegram_user_id}_{safe_sub_id[:8]}_{server.slug}"` -/
def nameText (name : PeerName) : Text :=
  "user_".toList ++ intText name.telegramUserId ++ '_' :: hex8Text name.idHex8 ++ '_' :: name.slug.toList

/-! ### Calls -/

/-- How the bot is set up: its own settings, the `vpnctl.conf` of each host, and what the
model's rows leave out: the subscriptions' UUIDs, and the text an error is reported with. -/
structure Setup where
  settings : AmneziaVpnBot.Settings
  hosts : ServerId → Vpnctl.Settings
  uuid : SubscriptionId → Text
  describe : Vpnctl.Error → String

/-- The request a job sends, and the client config in its answer, if it has one. -/
def request (cfg : Vpnctl.Settings) (e : Vpnctl.Env) (jobType : JobType) (uuid name : Text) :
    Vpnctl.Cmd (Option Text) :=
  match jobType with
  | .createPeer => do return some (← Vpnctl.createPeer cfg e uuid name).config
  | .disablePeer => do
    let _ ← Vpnctl.disablePeer cfg e name
    return none
  | .enablePeer => do
    let _ ← Vpnctl.enablePeer cfg e name
    return none
  | .removePeer => do
    let _ ← Vpnctl.removePeer cfg e name
    return none
  | .redeliverConfig => do return some (← Vpnctl.getConfig name).config

/-- `VPNCTL_PERMANENT_EXITS` -/
def permanentExits : List ℕ := [2, 3, 4]

/-- `_classify_failure`: whether the worker may try again. -/
def isRetryable (exitCode : ℕ) (message : String) : Bool :=
  exitCode ∉ permanentExits && !(message.toList.map Char.toLower).tails.any ("already exists".toList.isPrefixOf ·)

/-- How a call ends. -/
inductive Answer
  /-- `vpnctl` handles the request, and the worker gets its answer. -/
  | answered (e : Vpnctl.Env)
  /-- `vpnctl` handles the request, and the worker sees a failure. -/
  | lost (e : Vpnctl.Env) (error : String)
  | unreached (error : String) (isRetryable : Bool)

structure State where
  now : ℤ
  db : Database
  hosts : ServerId → Vpnctl.Server
  phase : Phase
  batch : List JobId
  session : IdentityMap
  /-- The client config the worker's last call brought back. -/
  config : Option Text

/-- What the bot knows of a client on a host. -/
def peerState (host : Vpnctl.Server) (name : Text) : Lifecycle.PeerState :=
  if some name ∈ host.blocks.map Vpnctl.blockName then .enabled
  else if (host.readClientFile name .peer).isSome then .disabled
  else .absent

/-- The bot on servers of which only its clients' states are seen. -/
def State.bot (s : State) : Lifecycle.State :=
  ⟨s.now, s.db, fun id name => peerState (s.hosts id) (nameText name), s.phase, s.batch, s.session⟩

inductive Step
  /-- A step in which no server is called. -/
  | bot (a : Lifecycle.Step)
  | call (answer : Answer)

/-- The client config and the failure in an answer. -/
def readAnswer (setup : Setup) : Except Vpnctl.Error (Option Text) → Option Text × Failure
  | .ok config => (config, none)
  | .error err => (none, some (setup.describe err, isRetryable err.exitCode (setup.describe err)))

/-- `sanitize_identifier` -/
def sanitized (name : Text) : Bool := Vpnctl.isIdentifier (Vpnctl.beforeNewline name)

/-- What `vpnctl` on the host makes of a job's request. -/
def serveRequest (setup : Setup) (s : State) (job : Job) (work : Work) (server : ServerId) (e : Vpnctl.Env) :
    Except Vpnctl.Error (Option Text) × Vpnctl.Server :=
  request (setup.hosts server) e job.jobType (setup.uuid job.aggregateId) (nameText work.peer) (s.hosts server)

/-- The call for a job, with the failure the worker sees. -/
def callHost (setup : Setup) (s : State) (job : Job) (work : Work) (server : ServerId) (answer : Answer) :
    State × Failure :=
  if sanitized (nameText work.peer) then
    match answer with
    | .answered e =>
      let (reply, host) := serveRequest setup s job work server e
      let (config, failure) := readAnswer setup reply
      ({ s with hosts := Function.update s.hosts server host, config := config }, failure)
    | .lost e error =>
      let (_, host) := serveRequest setup s job work server e
      ({ s with hosts := Function.update s.hosts server host, config := none }, some (error, true))
    | .unreached error isRetryable => ({ s with config := none }, some (error, isRetryable))
  else ({ s with config := none }, some ("Invalid identifier", true))

def step (setup : Setup) (s : State) : Step → Option State
  | .bot (.call _) => none
  | .bot a => (Lifecycle.step setup.settings s.bot a).map fun b =>
    { s with now := b.now, db := b.db, phase := b.phase, batch := b.batch, session := b.session }
  | .call answer => match s.phase with
    | .decided id job (.go work) => match work.server with
      | some server =>
        let (s, failure) := callHost setup s job work server answer
        some { s with phase := .called id job work failure }
      | none => some { s with phase := .called id job work none, config := none }
    | _ => none

def start (users : Table User) (servers : Table VpnServer) (products : Table Product) (now : ℤ)
    (hosts : ServerId → Vpnctl.Server) : State :=
  ⟨now, ⟨users, servers, products, [], [], [], [], []⟩, hosts, .idle, [], .empty, none⟩

/-! ### What a step does -/

variable {setup : Setup} {s t : State}

@[simp] theorem bot_db (s : State) : s.bot.db = s.db := rfl

@[simp] theorem bot_now (s : State) : s.bot.now = s.now := rfl

@[simp] theorem bot_phase (s : State) : s.bot.phase = s.phase := rfl

@[simp] theorem bot_batch (s : State) : s.bot.batch = s.batch := rfl

@[simp] theorem bot_session (s : State) : s.bot.session = s.session := rfl

/-- What a step that calls no server leaves alone; it takes a decision only by reading. -/
structure Keeps (b c : Lifecycle.State) : Prop where
  peers : c.peers = b.peers
  users : c.db.users = b.db.users
  servers : c.db.servers = b.db.servers
  decided : ∀ id job decision, c.phase = .decided id job decision →
    b.phase = .decided id job decision ∨ decision = Worker.read b.seen job b.now

theorem Keeps.of_phase {b c : Lifecycle.State} (hpeers : c.peers = b.peers)
    (hdb : (c.db.users, c.db.servers) = (b.db.users, b.db.servers)) (hphase : c.phase = b.phase ∨ c.phase = .idle) :
    Keeps b c := by
  refine ⟨hpeers, (Prod.mk.inj hdb).1, (Prod.mk.inj hdb).2, fun id job decision h => ?_⟩
  rcases hphase with hsame | hidle
  · exact .inl (hsame ▸ h)
  · rw [hidle] at h
    cases h

theorem write_users {db db' : Database} {jobType : JobType} {id : SubscriptionId} {work : Work}
    {delivered : Bool} {now : ℤ}
    (h : Worker.write db jobType id work delivered now = some db') : db'.users = db.users := by
  cases jobType with
  | createPeer =>
    simp only [Worker.write, Option.ite_none_left_eq_some, Option.some.injEq] at h
    obtain ⟨-, rfl⟩ := h
    rfl
  | redeliverConfig =>
    simp only [Worker.write, Option.ite_none_right_eq_some, Option.some.injEq] at h
    obtain ⟨-, rfl⟩ := h
    rfl
  | _ => cases h; rfl

theorem step_keeps {settings : AmneziaVpnBot.Settings} {b c : Lifecycle.State} {a : Lifecycle.Step}
    (ha : ∀ reply, a ≠ .call reply) (h : Lifecycle.step settings b a = some c) : Keeps b c := by
  cases a with
  | startOrder user server product =>
    simp only [Lifecycle.step, Option.ite_none_right_eq_some, Option.some.injEq] at h
    obtain ⟨-, rfl⟩ := h
    exact .of_phase rfl rfl (.inl rfl)
  | startRenewal user sub product =>
    obtain ⟨row, -, h⟩ := Option.bind_eq_some_iff.mp h
    simp only [Option.ite_none_right_eq_some, Option.some.injEq] at h
    obtain ⟨-, rfl⟩ := h
    exact .of_phase rfl rfl (.inl rfl)
  | submitReceipt id receipt => cases h; exact .of_phase rfl rfl (.inl rfl)
  | approve id admin idHex8 =>
    cases h
    refine .of_phase rfl ?_ (.inl rfl)
    rcases callbackAdminApproveOrder_cases b.db id admin idHex8 b.now with
      ⟨_, _, -, -, -, -, -, ⟨_, _, -, he⟩ | ⟨-, he⟩⟩ | he <;> rw [he] <;> rfl
  | reject id admin =>
    cases h
    refine .of_phase rfl ?_ (.inl rfl)
    unfold callbackAdminRejectOrder
    rcases rejectOrder_cases b.db id admin (some rejectionReason) b.now with ⟨_, -, -, he⟩ | he
    · rw [he]
      rfl
    · rw [he]
  | extend id n admin =>
    obtain ⟨db, hdb, rfl⟩ := Option.map_eq_some_iff.mp h
    obtain ⟨sub, -, h⟩ := Option.bind_eq_some_iff.mp hdb
    simp only [Option.ite_none_left_eq_some, Option.some.injEq] at h
    obtain ⟨-, rfl⟩ := h
    exact .of_phase rfl rfl (.inl rfl)
  | redeliver id user =>
    obtain ⟨db, hdb, rfl⟩ := Option.map_eq_some_iff.mp h
    obtain ⟨sub, -, h⟩ := Option.bind_eq_some_iff.mp hdb
    simp only [Option.ite_none_right_eq_some, Option.some.injEq] at h
    obtain ⟨-, rfl⟩ := h
    exact .of_phase rfl rfl (.inl rfl)
  | retry id admin =>
    obtain ⟨db, hdb, rfl⟩ := Option.map_eq_some_iff.mp h
    obtain ⟨job, -, h⟩ := Option.bind_eq_some_iff.mp hdb
    simp only [Option.ite_none_right_eq_some, Option.some.injEq] at h
    obtain ⟨-, rfl⟩ := h
    exact .of_phase rfl rfl (.inl rfl)
  | checkExpired =>
    cases h
    refine .of_phase rfl
      (Lifecycle.foldl_same (g := fun db => (db.users, db.servers)) (fun db i => ?_) _ b.db) (.inl rfl)
    unfold disableExpired
    split_ifs <;> rfl
  | cleanup =>
    cases h
    refine .of_phase rfl
      (Lifecycle.foldl_same (g := fun db => (db.users, db.servers)) (fun db i => ?_) _ b.db) (.inl rfl)
    unfold removeDisabled
    split_ifs <;> rfl
  | claim limit =>
    simp only [Lifecycle.step] at h
    split at h
    · cases h; exact .of_phase rfl rfl (.inl rfl)
    · cases h
  | read =>
    simp only [Lifecycle.step] at h
    split at h
    · obtain ⟨job, -, rfl⟩ := Option.map_eq_some_iff.mp h
      refine ⟨rfl, rfl, rfl, fun _ _ _ hphase => ?_⟩
      cases hphase
      exact .inr rfl
    · cases h
  | call reply => exact absurd rfl (ha reply)
  | write delivered =>
    obtain ⟨db, hw, rfl⟩ := Option.map_eq_some_iff.mp h
    refine .of_phase rfl ?_ (.inr rfl)
    unfold Lifecycle.writeJob at hw
    split at hw
    · cases hw; rfl
    · cases hw; rfl
    · obtain rfl := Option.some.inj hw
      unfold Lifecycle.finish
      split
      next hwrite => exact Prod.ext (write_users hwrite) (Worker.write_eq_some hwrite).1
      · rfl
    · cases hw; rfl
    · cases hw
  | collect user =>
    simp only [Lifecycle.step] at h
    split at h <;> cases h
    exact .of_phase rfl rfl (.inl rfl)
  | crash => cases h; exact .of_phase rfl rfl (.inr rfl)
  | tick d => cases h; exact .of_phase rfl rfl (.inl rfl)

/-- A step of the bot alone is a step of the bot on abstract servers. -/
theorem step_bot {a : Lifecycle.Step} (h : step setup s (.bot a) = some t) :
    t.hosts = s.hosts ∧ t.config = s.config ∧ (∀ reply, a ≠ .call reply) ∧
      Lifecycle.step setup.settings s.bot a = some t.bot := by
  have hcall : ∀ reply, a ≠ .call reply := by
    rintro reply rfl
    cases h
  have hmap : (Lifecycle.step setup.settings s.bot a).map (fun b =>
      { s with now := b.now, db := b.db, phase := b.phase, batch := b.batch, session := b.session }) = some t := by
    cases a <;> first | exact h | cases h
  obtain ⟨b, hb, rfl⟩ := Option.map_eq_some_iff.mp hmap
  refine ⟨rfl, rfl, hcall, hb.trans ?_⟩
  have hpeers := (step_keeps hcall hb).peers
  obtain ⟨now, db, peers, phase, batch, session⟩ := b
  subst hpeers
  rfl

end AmneziaVpnBot.Deploy
