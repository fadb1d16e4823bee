import AmneziaVpnBot.Deploy.Crash
import AmneziaVpnBot.Vpnctl.Configs

/-! What the customers are sent. Along every run of the bot, whatever fails, crashes or is lost on its way, a client's
config that was brought back once is what every later job brings back, until a remove of the client is carried out. -/

namespace AmneziaVpnBot.Deploy

open Records (Visit Follows)
open Worker (Work)
open Vpnctl (Visited KeepsOnError KeepsConfigs)

variable {setup : Setup} {s t u : State}

/-! ### Requests -/

/-- What a request has shown or dropped when it ends so. -/
def requestVisits (jobType : JobType) (name : Text) : Except Vpnctl.Error (Option Text) → List (Visit Text Text)
  | .ok (some config) => [.shown name config]
  | .ok none => if jobType = .removePeer then [.dropped name] else []
  | .error _ => []

theorem visited_return {α : Type} {c : Vpnctl.Cmd α} {f : α → Option Text} {jobType : JobType} {name : Text}
    (hkeep : KeepsOnError c)
    (hok : ∀ s a t, c s = (.ok a, t) → Visited s (requestVisits jobType name (.ok (f a))) t) (s : Vpnctl.Server) :
    Visited s (requestVisits jobType name ((do return f (← c) : Vpnctl.Cmd (Option Text)) s).1)
      ((do return f (← c) : Vpnctl.Cmd (Option Text)) s).2 := by
  rcases hc : c s with ⟨err | a, t⟩
  · rw [Vpnctl.Cmd.bind_of_error hc]
    exact .keep (hkeep s t err hc)
  · rw [Vpnctl.Cmd.return_ok hc]
    exact hok s a t hc

theorem visited_return_keeps {α : Type} {c : Vpnctl.Cmd α} {jobType : JobType}
    (hjob : jobType ≠ .removePeer) (name : Text)
    (hkeep : KeepsConfigs c) (s : Vpnctl.Server) :
    Visited s (requestVisits jobType name ((do let _ ← c; return none : Vpnctl.Cmd (Option Text)) s).1)
      ((do let _ ← c; return none : Vpnctl.Cmd (Option Text)) s).2 := by
  refine visited_return (.of_keeps hkeep) (fun s a t h => ?_) s
  have hsame := hkeep s
  rw [h] at hsame
  rw [requestVisits, if_neg hjob]
  exact .keep hsame

/-- Each request visits the configs of its host as its answer says. -/
theorem visited_request (cfg : Vpnctl.Settings) (e : Vpnctl.Env) (jobType : JobType) (uuid name : Text)
    (s : Vpnctl.Server) :
    Visited s (requestVisits jobType name (request cfg e jobType uuid name s).1)
      (request cfg e jobType uuid name s).2 := by
  cases jobType with
  | createPeer =>
    refine visited_return (.createPeer uuid name) ?_ s
    exact fun s r t h => (Vpnctl.visited_createPeer h).2
  | disablePeer => exact visited_return_keeps (by decide) name (.disablePeer name) s
  | enablePeer => exact visited_return_keeps (by decide) name (.enablePeer name) s
  | removePeer =>
    refine visited_return (.removePeer name) ?_ s
    exact fun s r t h => (Vpnctl.visited_removePeer h).2
  | redeliverConfig =>
    refine visited_return (.of_keeps (.getConfig name)) ?_ s
    exact fun s r t h => (Vpnctl.visited_getConfig h).2

/-! ### Steps -/

def State.configsOn (s : State) (server : ServerId) : Text → Option Text := (s.hosts server).configs

/-- The configs on all hosts, by server and name. -/
def State.configs (s : State) : ServerId × Text → Option Text := Function.uncurry s.configsOn

/-- What the call for a job has shown or dropped, when it reaches its host. -/
def callVisits (setup : Setup) (s : State) (job : Job) (work : Work) (server : ServerId) :
    Answer → List (Visit (ServerId × Text) Text)
  | .answered e | .lost e _ =>
    if sanitized (nameText work.peer) then
      (requestVisits job.jobType (nameText work.peer) (serveRequest setup s job work server e).1).map
        (Visit.within server)
    else []
  | .unreached .. => []

def visits (setup : Setup) (s : State) : Step → List (Visit (ServerId × Text) Text)
  | .bot _ => []
  | .call answer => match s.phase with
    | .decided _ job (.go work) => work.server.elim [] fun server => callVisits setup s job work server answer
    | _ => []

theorem configs_update {server : ServerId} {host : Vpnctl.Server}
    (h : t.hosts = Function.update s.hosts server host) :
    t.configs = Function.uncurry (Function.update s.configsOn server host.configs) := by
  rw [State.configs]
  congr 1
  funext k
  rw [State.configsOn, h, Function.update_apply, Function.update_apply]
  split <;> rfl

theorem follows_serveRequest (job : Job) (work : Work) (server : ServerId) (e : Vpnctl.Env)
    (h : t.hosts = Function.update s.hosts server (serveRequest setup s job work server e).2) :
    Follows s.configs
      ((requestVisits job.jobType (nameText work.peer) (serveRequest setup s job work server e).1).map
        (Visit.within server))
      t.configs := by
  have hone : Follows (s.configsOn server)
      (requestVisits job.jobType (nameText work.peer) (serveRequest setup s job work server e).1)
      (serveRequest setup s job work server e).2.configs := (visited_request _ _ _ _ _ _).follows
  rw [configs_update h]
  exact hone.within

theorem follows_callHost (job : Job) (work : Work) (server : ServerId) (answer : Answer) :
    Follows s.configs (callVisits setup s job work server answer)
      (callHost setup s job work server answer).1.configs := by
  unfold callHost
  split
  next hname =>
    cases answer with
    | answered e | lost e error =>
      rw [callVisits, if_pos hname]
      exact follows_serveRequest job work server e rfl
    | unreached error r => exact Follows.refl s.configs
  next hname =>
    cases answer with
    | answered e | lost e error =>
      rw [callVisits, if_neg hname]
      exact Follows.refl s.configs
    | unreached error r => exact Follows.refl s.configs

theorem follows_step {a : Step} (h : step setup s a = some t) : Follows s.configs (visits setup s a) t.configs := by
  cases a with
  | bot a =>
    have hsame : t.configsOn = s.configsOn := by
      funext k
      rw [State.configsOn, (step_bot h).1, State.configsOn]
    rw [State.configs, State.configs, hsame]
    exact Follows.refl _
  | call answer =>
    simp only [step] at h
    split at h
    next id job work hphase =>
      rw [visits.eq_def]
      simp only [hphase]
      split at h
      next server hserver =>
        obtain rfl := Option.some.inj h
        rw [hserver]
        exact follows_callHost job work server answer
      next hserver =>
        obtain rfl := Option.some.inj h
        rw [hserver]
        exact Follows.refl s.configs
    · cases h

theorem follows_run {as : List Step} (h : Machine.run (step setup) s as = some t) :
    Follows s.configs (Machine.log (step setup) (visits setup) s as) t.configs :=
  Follows.run (G := fun _ _ => True) (I := fun _ => True) (fun _ _ _ _ _ hstep => ⟨trivial, follows_step hstep⟩)
    (Machine.along_true s as) h trivial

/-! ### Redelivery -/

/-- A call that brings a config back has shown it. -/
theorem visits_of_config {job : Job} {work : Work} {server : ServerId} {e : Vpnctl.Env} {config : Text}
    (h : (callHost setup s job work server (.answered e)).1.config = some config) :
    sanitized (nameText work.peer) = true ∧
      callVisits setup s job work server (.answered e) = [.shown (server, nameText work.peer) config] := by
  unfold callHost at h
  split at h
  next hname =>
    refine ⟨hname, ?_⟩
    rw [callVisits, if_pos hname]
    dsimp only at h
    cases hreply : (serveRequest setup s job work server e).1 with
    | error err =>
      rw [hreply] at h
      cases h
    | ok reply =>
      rw [hreply] at h
      obtain rfl : reply = some config := h
      rfl
  · cases h

/-- A redelivery sends the config that is in the clients folder. -/
theorem callHost_redeliver {job : Job} {work : Work} {server : ServerId} {config : Text}
    (hjob : job.jobType = .redeliverConfig)
    (hname : sanitized (nameText work.peer) = true) (hconfig : s.configs (server, nameText work.peer) = some config)
    (e : Vpnctl.Env) :
    callHost setup s job work server (.answered e) = ({ s with config := some config }, none) := by
  have hfile : (s.hosts server).readClientFile (nameText work.peer) .conf = some config := hconfig
  have hget : Vpnctl.getConfig (nameText work.peer) (s.hosts server) =
      (.ok (Vpnctl.peerResult (nameText work.peer) config none none), s.hosts server) := by
    rw [Vpnctl.getConfig, Vpnctl.validateIdentifier_of_isIdentifier _ hname, Vpnctl.Cmd.ofExcept_ok_bind,
      Vpnctl.Cmd.get_bind, hfile]
    rfl
  have hserve : serveRequest setup s job work server e = (.ok (some config), s.hosts server) := by
    rw [serveRequest, hjob, request, Vpnctl.Cmd.return_ok hget]
    rfl
  rw [callHost.eq_def, if_pos hname]
  simp only [hserve, readAnswer, Function.update_eq_self]

/-- The config a customer was sent is the one that every redelivery brings back, whatever jobs, crashes, lost answers
and failures lie in between, until a remove of the client is carried out; and no other is ever brought back. -/
theorem config_redelivered {id : JobId} {job : Job} {work : Work} {server : ServerId} {e : Vpnctl.Env} {config : Text}
    (hphase : s.phase = .decided id job (.go work)) (hserver : work.server = some server)
    (hcall : step setup s (.call (.answered e)) = some t) (hconfig : t.config = some config) {as : List Step}
    (has : Machine.run (step setup) t as = some u)
    (hkept : .dropped (server, nameText work.peer) ∉ Machine.log (step setup) (visits setup) t as) :
    (∀ other, .shown (server, nameText work.peer) other ∈ Machine.log (step setup) (visits setup) t as →
      other = config) ∧
      ∀ id' job' work' e', u.phase = .decided id' job' (.go work') → work'.server = some server →
        nameText work'.peer = nameText work.peer → job'.jobType = .redeliverConfig →
        step setup u (.call (.answered e')) =
          some { u with phase := .called id' job' work' none, config := some config } := by
  have ht : (callHost setup s job work server (.answered e)).1.config = some config := by
    simp only [step, hphase, hserver, Option.some.injEq] at hcall
    rw [← hconfig, ← hcall]
  obtain ⟨hname, hvisits⟩ := visits_of_config ht
  have hfollows := follows_step hcall
  have hshown : visits setup s (.call (.answered e)) = [.shown (server, nameText work.peer) config] := by
    rw [visits, hphase]
    simp only [hserver, Option.elim_some, hvisits]
  rw [hshown] at hfollows
  obtain ⟨hend, hrest⟩ := (follows_run has).keep hfollows.of_shown hkept
  refine ⟨hrest, fun id' job' work' e' hphase' hserver' hpeer hjob => ?_⟩
  rw [← hpeer] at hname hend
  simp only [step, hphase', hserver', callHost_redeliver hjob hname hend]

section Small

/-- The config is delivered, and the customer asks for it again. -/
def askedAgain : List Step := [.write true, .redeliver 0 0, .claim 10, .read].map .bot

/-- Two jobs ready for their requests ask about one client, the second for a redelivery. -/
def SameClient : Lifecycle.Phase → Lifecycle.Phase → Bool
  | .decided _ _ (.go work), .decided _ job' (.go work') => work.server = some 0 && work'.server = some 0 &&
      nameText work'.peer = nameText work.peer && job'.jobType = .redeliverConfig
  | _, _ => false

theorem config_redelivered_small : ∃ s t u id job work config,
    Machine.run (step smallSetup) small (approved ++ [.bot .read]) = some s ∧
      step smallSetup s (.call (.answered (Vpnctl.smallEnv "azE=".toList))) = some t ∧ t.config = some config ∧
      Machine.run (step smallSetup) t askedAgain = some u ∧
      step smallSetup u (.call (.answered (Vpnctl.smallEnv "azI=".toList))) =
        some { u with phase := .called id job work none, config := some config } := by
  have hall : (Machine.run (step smallSetup) small (approved ++ [.bot .read])).any (fun s =>
      (step smallSetup s (.call (.answered (Vpnctl.smallEnv "azE=".toList)))).any fun t =>
        (Machine.run (step smallSetup) t askedAgain).any fun u => t.config.isSome &&
          (Machine.log (step smallSetup) (visits smallSetup) t askedAgain).isEmpty && SameClient s.phase u.phase) =
            true := by
    decide +kernel
  obtain ⟨s, hs, hall⟩ := Machine.exists_of_any hall
  obtain ⟨t, ht, hall⟩ := (Option.any_eq_true _ _).mp hall
  obtain ⟨u, hu, hall⟩ := Machine.exists_of_any hall
  simp only [Bool.and_eq_true, List.isEmpty_iff] at hall
  obtain ⟨⟨hsome, hlog⟩, hsame⟩ := hall
  unfold SameClient at hsame
  split at hsame
  next id job work id' job' work' hphase hphase' =>
    simp only [Bool.and_eq_true, decide_eq_true_eq] at hsame
    obtain ⟨⟨⟨hserver, hserver'⟩, hpeer⟩, hjob⟩ := hsame
    obtain ⟨config, hconfig⟩ := Option.isSome_iff_exists.mp hsome
    have hkept : .dropped (0, nameText work.peer) ∉ Machine.log (step smallSetup) (visits smallSetup) t askedAgain := by
      rw [hlog]
      exact List.not_mem_nil
    obtain ⟨-, hagain⟩ := config_redelivered hphase hserver ht hconfig hu hkept
    exact ⟨s, t, u, id', job', work', config, hs, ht, hconfig, hu, hagain id' job' work' _ hphase' hserver' hpeer hjob⟩
  · cases hsame

end Small

end AmneziaVpnBot.Deploy
