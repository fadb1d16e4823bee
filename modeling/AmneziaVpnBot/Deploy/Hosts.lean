import AmneziaVpnBot.Deploy.System

/-! The hosts along a run of the bot: as long as `vpnctl` completes each call or changes
nothing, every block a host has saved stays that of the client it is saved for; and then a
request that was carried out can be made again. -/

namespace AmneziaVpnBot.Deploy

open Lifecycle (Failure Phase)
open Worker (Work)

variable {setup : Setup} {s t : State}

/-! ### Requests -/

/-- A request that was carried out gives the same answer again and changes nothing more. -/
theorem request_again {cfg : Vpnctl.Settings} {e₁ e₂ : Vpnctl.Env} {jobType : JobType} {uuid name : Text}
    {x y z : Vpnctl.Server} {config : Option Text} (hx : x.Saved) (he₁ : e₁.AllOk) (he₂ : e₂.AllOk)
    (h : request cfg e₁ jobType uuid name x = (.ok config, y)) (hyz : y.Alike z) :
    ∃ w, request cfg e₂ jobType uuid name z = (.ok config, w) ∧ y.Alike w := by
  cases jobType with
  | createPeer =>
    obtain ⟨r, hr, rfl⟩ := Vpnctl.Cmd.of_return_ok h
    obtain ⟨r', hr', hconfig⟩ := Vpnctl.createPeer_again he₁ hr hyz
    exact ⟨z, hconfig ▸ Vpnctl.Cmd.return_ok hr' fun r => some r.config, hyz⟩
  | disablePeer =>
    obtain ⟨r, hr, rfl⟩ := Vpnctl.Cmd.of_return_ok h
    obtain ⟨r', hr'⟩ := Vpnctl.disablePeer_again he₁ hr hyz
    exact ⟨z, Vpnctl.Cmd.return_ok hr' fun _ => none, hyz⟩
  | enablePeer =>
    obtain ⟨r, hr, rfl⟩ := Vpnctl.Cmd.of_return_ok h
    obtain ⟨r', w, hr', hw⟩ := Vpnctl.enablePeer_again hx he₁ he₂ hr hyz
    exact ⟨w, Vpnctl.Cmd.return_ok hr' fun _ => none, hw⟩
  | removePeer =>
    obtain ⟨r, hr, rfl⟩ := Vpnctl.Cmd.of_return_ok h
    obtain ⟨r', hr'⟩ := Vpnctl.removePeer_again he₁ hr hyz
    exact ⟨z, Vpnctl.Cmd.return_ok hr' fun _ => none, hyz⟩
  | redeliverConfig =>
    obtain ⟨r, hr, rfl⟩ := Vpnctl.Cmd.of_return_ok h
    obtain ⟨r', hr', hconfig⟩ := Vpnctl.getConfig_again hr hyz
    exact ⟨z, hconfig ▸ Vpnctl.Cmd.return_ok hr' fun r => some r.config, hyz⟩

theorem saved_request {cfg : Vpnctl.Settings} {e : Vpnctl.Env} {jobType : JobType} {uuid name : Text}
    {x : Vpnctl.Server}
    (hx : x.Saved) (he : e.AllOk) (hkeys : e.WordKeys) (hname : jobType = .createPeer → Text.IsWord name) :
    (request cfg e jobType uuid name x).2.Saved := by
  cases jobType with
  | createPeer =>
    rw [request, Vpnctl.Cmd.snd_return]
    exact Vpnctl.saved_create hx he hkeys (hname rfl)
  | disablePeer =>
    rw [request, Vpnctl.Cmd.snd_return]
    exact Vpnctl.saved_disable hx he
  | enablePeer =>
    rw [request, Vpnctl.Cmd.snd_return]
    exact Vpnctl.saved_enable hx he
  | removePeer =>
    rw [request, Vpnctl.Cmd.snd_return]
    exact Vpnctl.saved_remove hx he
  | redeliverConfig =>
    rw [request, Vpnctl.Cmd.snd_return, Vpnctl.snd_getConfig]
    exact hx

/-! ### Names -/

/-- A name that passes the check and does not end a line is a word. -/
theorem isWord_of_sanitized {name : Text} (h : sanitized name = true) (hend : name.getLast? ≠ some '\n') :
    Text.IsWord name := by
  rw [sanitized, Vpnctl.beforeNewline, if_neg hend] at h
  exact Vpnctl.isWord_of_isIdentifier h

theorem getLast?_nameText (name : PeerName) (h : name.slug.toList.getLast? ≠ some '\n') :
    (nameText name).getLast? ≠ some '\n' := by
  unfold nameText
  simp only [List.getLast?_append, List.getLast?_cons, Option.some_or]
  cases hlast : name.slug.toList.getLast? with
  | none => simp
  | some c =>
    rw [Option.getD_some, ← hlast]
    exact h

/-- The label of a create job ends in the slug of a server. -/
theorem slug_of_read {db : Database} {job : Job} {now : ℤ} {work : Work} (h : Worker.read db job now = .go work)
    (ht : job.jobType = .createPeer) : ∃ server ∈ db.servers, work.peer.slug = server.slug := by
  unfold Worker.read at h
  split at h
  next sub hsub =>
    simp only [Worker.readSubscription, ht] at h
    split at h
    next server user hserver huser =>
      cases h
      exact ⟨server, List.mem_of_getElem? hserver, rfl⟩
    · cases h
  · split_ifs at h

/-! ### Runs -/

/-- `vpnctl` completes the call or changes nothing; the keys it may make are words. -/
def CompletesIn (setup : Setup) (s : State) (e : Vpnctl.Env) : Prop :=
  ∀ (id : JobId) (job : Job) (work : Work) (server : ServerId), s.phase = .decided id job (.go work) →
    work.server = some server → (e.AllOk ∧ e.WordKeys) ∨
      (serveRequest setup s job work server e).2 = s.hosts server

def Completes (setup : Setup) (s : State) : Step → Prop
  | .call (.answered e) | .call (.lost e _) => CompletesIn setup s e
  | _ => True

/-- Every host's saved blocks are their clients' own, and the label of a create job that is about
to call its server ends in a server's slug. -/
structure Sound (users : Table User) (servers : Table VpnServer) (s : State) : Prop where
  sameUsers : s.db.users = users
  sameServers : s.db.servers = servers
  hosts : ∀ server, (s.hosts server).Saved
  label : ∀ id job work, s.phase = .decided id job (.go work) → job.jobType = .createPeer →
    ∃ server ∈ servers, work.peer.slug = server.slug

variable {users : Table User} {servers : Table VpnServer}

theorem saved_call {e : Vpnctl.Env} {id : JobId} {job : Job} {work : Work} {server : ServerId}
    (hslug : ∀ server ∈ servers, server.slug.toList.getLast? ≠ some '\n') (h : Sound users servers s)
    (hphase : s.phase = .decided id job (.go work)) (hserver : work.server = some server) (hg : CompletesIn setup s e)
    (hname : sanitized (nameText work.peer) = true) :
    (serveRequest setup s job work server e).2.Saved := by
  rcases hg id job work server hphase hserver with ⟨he, hkeys⟩ | hsame
  · apply saved_request (h.hosts server) he hkeys
    intro ht
    obtain ⟨row, hrow, hlabel⟩ := h.label id job work hphase ht
    exact isWord_of_sanitized hname (getLast?_nameText _ (hlabel ▸ hslug row hrow))
  · rw [hsame]
    exact h.hosts server

theorem Sound.hosts_update {server : ServerId} {host : Vpnctl.Server} (h : Sound users servers s) (hhost : host.Saved)
    (k : ServerId) : (Function.update s.hosts server host k).Saved := by
  rw [Function.update_apply]
  split_ifs
  · exact hhost
  · exact h.hosts k

theorem saved_callHost {answer : Answer} {id : JobId} {job : Job} {work : Work} {server : ServerId}
    (hslug : ∀ server ∈ servers, server.slug.toList.getLast? ≠ some '\n') (h : Sound users servers s)
    (hphase : s.phase = .decided id job (.go work)) (hserver : work.server = some server)
    (hg : Completes setup s (.call answer)) :
    (callHost setup s job work server answer).1.db = s.db ∧
      ∀ k, ((callHost setup s job work server answer).1.hosts k).Saved := by
  unfold callHost
  split_ifs with hname
  · cases answer with
    | answered e => exact ⟨rfl, h.hosts_update (saved_call hslug h hphase hserver hg hname)⟩
    | lost e error => exact ⟨rfl, h.hosts_update (saved_call hslug h hphase hserver hg hname)⟩
    | unreached error r => exact ⟨rfl, h.hosts⟩
  · exact ⟨rfl, h.hosts⟩

theorem sound_step {a : Step} (hslug : ∀ server ∈ servers, server.slug.toList.getLast? ≠ some '\n')
    (h : Sound users servers s) (hg : Completes setup s a) (hstep : step setup s a = some t) :
    Sound users servers t := by
  cases a with
  | bot a =>
    obtain ⟨hhosts, -, hcall, hbot⟩ := step_bot hstep
    have hkeep := step_keeps hcall hbot
    refine ⟨hkeep.users.trans h.sameUsers, hkeep.servers.trans h.sameServers, fun k => hhosts ▸ h.hosts k, ?_⟩
    intro id job work hphase ht
    rcases hkeep.decided id job (.go work) hphase with hold | hread
    · exact h.label id job work hold ht
    · obtain ⟨server, hserver, hlabel⟩ := slug_of_read hread.symm ht
      exact ⟨server, h.sameServers ▸ hserver, hlabel⟩
  | call answer =>
    simp only [step] at hstep
    split at hstep
    next id job work hphase =>
      split at hstep
      next server hserver =>
        obtain rfl := Option.some.inj hstep
        obtain ⟨hdb, hhosts⟩ := saved_callHost hslug h hphase hserver hg
        exact ⟨hdb ▸ h.sameUsers, hdb ▸ h.sameServers, hhosts, fun _ _ _ hcalled => by cases hcalled⟩
      · obtain rfl := Option.some.inj hstep
        exact ⟨h.sameUsers, h.sameServers, h.hosts, fun _ _ _ hcalled => by cases hcalled⟩
    · cases hstep

/-- Every run of the bot keeps the hosts' saved blocks in order. -/
theorem sound_run {products : Table Product} {now : ℤ} {hosts : ServerId → Vpnctl.Server} {as : List Step}
    (hslug : ∀ server ∈ servers, server.slug.toList.getLast? ≠ some '\n') (hhosts : ∀ server, (hosts server).Saved)
    (hg : Machine.Along (step setup) (Completes setup) (start users servers products now hosts) as)
    (hrun : Machine.run (step setup) (start users servers products now hosts) as = some s) : Sound users servers s := by
  have hstart : Sound users servers (start users servers products now hosts) :=
    ⟨rfl, rfl, hhosts, fun _ _ _ hphase => by cases hphase⟩
  exact Machine.invariant_along (fun _ _ _ h hg hstep => sound_step hslug h hg hstep) hg hrun hstart

end AmneziaVpnBot.Deploy
