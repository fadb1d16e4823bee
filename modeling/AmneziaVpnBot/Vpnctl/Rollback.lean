import AmneziaVpnBot.Vpnctl.Effects
import AmneziaVpnBot.Vpnctl.PeerBlock

/-! A create that fails. Its error path takes the new live peer out again and nothing else:
the server is as it was before exactly when the failure comes before the saved block is in
place. -/

namespace AmneziaVpnBot.Vpnctl

open Text

/-- Where a create can fail: at a call of `awg`, or at the replacement of a file. -/
inductive Point
  | awg (call : AwgCall)
  | replace (path : Path)
  deriving DecidableEq

def Env.failsAt (e : Env) : Point → Bool
  | .awg call => (e.awgError call).isSome
  | .replace path => e.replaceFails path

/-- The calls that make the keys. -/
def keyCalls : List AwgCall := [.genkey, .pubkey, .genpsk, .serverPubkey]

/-- What changes the server, in the order of a create. -/
def changePoints (name : Text) : List Point :=
  [.awg .setPeer, .replace (.client name .peer), .replace .server, .replace (.client name .conf)]

/-- Where a create fails: the first of its calls that does. -/
def Env.firstFailure (e : Env) (name : Text) : Option Point :=
  (keyCalls.map Point.awg ++ changePoints name).find? e.failsAt

/-- The server can take one more client: its config has what a create reads, and a free address,
and the endpoint is known. -/
def isReady (cfg : Settings) (e : Env) (s : Server) : Bool :=
  match readConf cfg s with
  | .error _ => false
  | .ok conf => match interfaceSettings cfg conf with
    | .error _ => false
    | .ok (_, address, _, _) => (freeAddress s conf address).isOk && (endpointHost cfg e).isOk

/-- The new public key is on no live peer and nowhere in the client's saved block. -/
def Env.Fresh (e : Env) (s : Server) (name : Text) : Prop :=
  s.live e.newPub = none ∧ ∀ saved ∈ s.readClientFile name .peer, ¬ e.newPub <:+: saved

/-- The same config, client files and live peers. -/
structure Server.Same (s t : Server) : Prop where
  conf : s.conf = t.conf
  clients : ∀ file, s.clients.lookup file = t.clients.lookup file
  live : s.live = t.live

variable {cfg : Settings} {e : Env} {s : Server}

theorem Server.Same.refl (s : Server) : s.Same s := ⟨rfl, fun _ => rfl, rfl⟩

theorem planCreate_of_ready (hready : isReady cfg e s = true) (name : Text) :
    (∃ p, planCreate cfg e s = .ok p) ∨ ∃ call, e.firstFailure name = some (.awg call) := by
  rw [isReady] at hready
  cases hconf : readConf cfg s with
  | error err => simp [hconf] at hready
  | ok conf =>
    cases hset : interfaceSettings cfg conf with
    | error err => simp [hconf, hset] at hready
    | ok settings =>
      obtain ⟨iface, address, port, serverPriv⟩ := settings
      simp only [hconf, hset, Bool.and_eq_true, Except.isOk_iff] at hready
      obtain ⟨⟨ip, hip⟩, host, hhost⟩ := hready
      cases hfirst : (keyCalls.map Point.awg).find? e.failsAt with
      | some point =>
        obtain ⟨call, -, rfl⟩ := List.mem_map.mp (List.mem_of_find?_eq_some hfirst)
        exact .inr ⟨call, by rw [Env.firstFailure, List.find?_append, hfirst]; rfl⟩
      | none =>
        have hcalls : ∀ call ∈ keyCalls, e.awgError call = none := by
          simpa [Env.failsAt] using hfirst
        simp only [keyCalls, List.forall_mem_cons] at hcalls
        obtain ⟨h1, h2, h3, h4, -⟩ := hcalls
        refine .inl (Except.isOk_iff.mp ?_)
        simp only [planCreate, hconf, hset, hip, hhost, awgRun_ok h1, awgRun_ok h2, awgRun_ok h3, awgRun_ok h4,
          bind, Except.bind]
        rfl

/-- A plan is only made on a server that is ready, and the calls up to it succeed. -/
theorem ready_of_planCreate {p : Plan} (h : planCreate cfg e s = .ok p) (name : Text) :
    isReady cfg e s = true ∧ e.firstFailure name = (changePoints name).find? e.failsAt := by
  simp only [planCreate, Except.bind_eq_ok, awgRun_eq_ok] at h
  obtain ⟨conf, hconf, ⟨iface, address, port, serverPriv⟩, hset, ip, hip, -, ⟨h1, -⟩, -, ⟨h2, -⟩, -,
    ⟨h3, -⟩, -, ⟨h4, -⟩, host, hhost, -⟩ := h
  refine ⟨?_, ?_⟩
  · simp only [isReady, hconf, hset, Bool.and_eq_true, Except.isOk_iff]
    exact ⟨⟨ip, hip⟩, host, hhost⟩
  · have hcalls : (keyCalls.map Point.awg).find? e.failsAt = none := by
      simp [keyCalls, Env.failsAt, h1, h2, h3, h4]
    rw [Env.firstFailure, List.find?_append, hcalls]
    rfl

theorem live_rollback {pub : Text} (h : s.live pub = none) (psk ips : Text) :
    ((s.setPeer pub psk ips).removePeer pub).live = s.live := by
  funext k
  simp only [Server.removePeer, Server.setPeer, Function.update_apply]
  split_ifs with hk
  · rw [hk, h]
  · rfl

/-- The server when the rollback is done, `changed` being what the create did to its files. -/
theorem applyPlan_rollback {name : Text} {p : Plan} (hset : e.awgError .setPeer = none)
    (hrollback : e.awgError .removePeer = none) {err : Error} {t : Server}
    (h : applyPlan cfg e name p s = (.error err, t)) :
    let u := s.setPeer p.pub p.psk p.allowedIps
    let block := peerBlock name p.pub p.psk p.allowedIps
    (e.replaceFails (.client name .peer) = true ∧ t = u.removePeer p.pub) ∨
      e.replaceFails (.client name .peer) = false ∧
        (e.replaceFails .server = true ∧ t = (u.write block (.client name .peer)).removePeer p.pub ∨
          e.replaceFails .server = false ∧ e.replaceFails (.client name .conf) = true ∧
            t = ((u.write block (.client name .peer)).write (addBlock p.conf block) .server).removePeer p.pub) := by
  rw [applyPlan, Cmd.bind_of_ok (awgSetPeer_ok hset _ _ _ s)] at h
  simp only [Cmd.onError, bind] at h
  cases hpeer : e.replaceFails (.client name .peer) with
  | true =>
    simp only [writePrivate_failed hpeer, awgRemovePeer_ok hrollback] at h
    exact .inl ⟨rfl, (Prod.mk.inj h).2.symm⟩
  | false =>
    cases hserver : e.replaceFails .server with
    | true =>
      simp only [writePrivate_ok hpeer, writePrivate_failed hserver, awgRemovePeer_ok hrollback] at h
      exact .inr ⟨rfl, .inl ⟨rfl, (Prod.mk.inj h).2.symm⟩⟩
    | false =>
      cases hclient : e.replaceFails (.client name .conf) with
      | true =>
        simp only [writePrivate_ok hpeer, writePrivate_ok hserver, writePrivate_failed hclient,
          awgRemovePeer_ok hrollback] at h
        exact .inr ⟨rfl, .inr ⟨rfl, rfl, (Prod.mk.inj h).2.symm⟩⟩
      | false =>
        simp only [writePrivate_ok hpeer, writePrivate_ok hserver, writePrivate_ok hclient] at h
        cases (Prod.mk.inj h).1

theorem not_same_of_saved {name : Text} {t : Server} (hfresh : e.Fresh s name) (psk ips : Text)
    (h : t.readClientFile name .peer = some (peerBlock name e.newPub psk ips)) : ¬ s.Same t := fun hsame =>
  hfresh.2 _ ((hsame.clients _).trans h) (pub_infix_peerBlock name e.newPub psk ips)

/-- A failed create leaves the server as it was exactly if it did not fail at the replacement of
the server config or at that of the client's config. -/
theorem createPeer_restores_iff {id label : Text} {err : Error} {t : Server} (hid : validateUuid id = .ok ())
    (hlabel : validateIdentifier "label".toList label = .ok label) (hnew : s.readClientFile label .conf = none)
    (hfresh : e.Fresh s label) (hrollback : e.awgError .removePeer = none)
    (hfail : createPeer cfg e id label s = (.error err, t)) :
    s.Same t ↔ (isReady cfg e s = true → e.firstFailure label ≠ some (.replace .server) ∧
      e.firstFailure label ≠ some (.replace (.client label .conf))) := by
  rw [createPeer, hid, Cmd.ofExcept_ok_bind, hlabel, Cmd.ofExcept_ok_bind, Cmd.get_bind] at hfail
  simp only [hnew] at hfail
  cases hp : planCreate cfg e s with
  | error err' =>
    rw [hp] at hfail
    obtain ⟨-, rfl⟩ := Prod.mk.inj hfail
    refine iff_of_true (.refl s) fun hready => ?_
    rcases planCreate_of_ready hready label with ⟨p, hp'⟩ | ⟨call, hcall⟩
    · rw [hp] at hp'
      cases hp'
    · simp [hcall]
  | ok p =>
    rw [hp, Cmd.ofExcept_ok_bind] at hfail
    obtain ⟨hready, hfirst⟩ := ready_of_planCreate hp label
    obtain ⟨-, -, -, -, -, -, -, -, -, hpub, -, -, -⟩ := planCreate_eq_ok hp
    have hlive := live_rollback (hpub ▸ hfresh.1) p.psk p.allowedIps
    by_cases hset : e.awgError .setPeer = none
    · rcases applyPlan_rollback hset hrollback hfail with
        ⟨hpeer, rfl⟩ | ⟨hpeer, ⟨hserver, rfl⟩ | ⟨hserver, hclient, rfl⟩⟩
      · refine iff_of_true ⟨rfl, fun _ => rfl, hlive.symm⟩ fun _ => ?_
        simp [hfirst, changePoints, Env.failsAt, hset, hpeer]
      · refine iff_of_false (not_same_of_saved hfresh p.psk p.allowedIps ?_) fun h => (h hready).1 ?_
        · exact (readClientFile_write ..).trans (by simp [hpub])
        · simp [hfirst, changePoints, Env.failsAt, hset, hpeer, hserver]
      · refine iff_of_false (not_same_of_saved hfresh p.psk p.allowedIps ?_) fun h => (h hready).2 ?_
        · exact (readClientFile_write ..).trans (by simp [hpub])
        · simp [hfirst, changePoints, Env.failsAt, hset, hpeer, hserver, hclient]
    · obtain ⟨err', h⟩ := applyPlan_failed cfg hset label p s
      obtain ⟨-, rfl⟩ := Prod.mk.inj (h.symm.trans hfail)
      refine iff_of_true (.refl s) fun _ => ?_
      simp [hfirst, changePoints, Env.failsAt, Option.isSome_iff_ne_none.mpr hset]

theorem createPeer_restores_setPeer_down :
    ∃ err t, createPeer smallSettings (smallEnvDown "a2V5".toList .setPeer) smallId "a".toList smallServer =
      (.error err, t) ∧ smallServer.Same t := by
  obtain ⟨err, h⟩ := Cmd.exists_error
    (c := createPeer smallSettings (smallEnvDown "a2V5".toList .setPeer) smallId "a".toList) (s := smallServer)
    (by decide +kernel)
  refine ⟨err, _, h, (createPeer_restores_iff (by decide +kernel) (by decide +kernel) (by decide +kernel)
    ⟨rfl, fun saved hsaved => ?_⟩ rfl h).mpr fun _ => by decide +kernel⟩
  cases hsaved

/-- The server config cannot be replaced: the saved block of the new client stays behind. -/
theorem createPeer_leaves_saved_block :
    ∃ (cfg : Settings) (e : Env) (s : Server) (id label : Text) (err : Error) (t : Server),
      validateUuid id = .ok () ∧ validateIdentifier "label".toList label = .ok label ∧
      s.readClientFile label .conf = none ∧ e.Fresh s label ∧ e.awgError .removePeer = none ∧
      createPeer cfg e id label s = (.error err, t) ∧ ¬ s.Same t := by
  let e : Env := { smallEnv "a2V5".toList with replaceFails := fun p => p = .server }
  obtain ⟨err, h⟩ := Cmd.exists_error (c := createPeer smallSettings e smallId "a".toList) (s := smallServer)
    (by decide +kernel)
  refine ⟨smallSettings, e, smallServer, smallId, "a".toList, err, _, by decide +kernel, by decide +kernel,
    by decide +kernel, ⟨rfl, fun saved hsaved => by cases hsaved⟩, rfl, h, fun hsame => ?_⟩
  have hfile := hsame.clients ("a".toList ++ Ext.peer.text)
  revert hfile
  decide +kernel

end AmneziaVpnBot.Vpnctl
