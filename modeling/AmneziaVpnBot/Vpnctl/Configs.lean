import AmneziaVpnBot.Lib.Records
import AmneziaVpnBot.Vpnctl.Replies
import AmneziaVpnBot.Vpnctl.Success

/-! The clients' configs as records. Whatever connections a server serves, and whatever fails meanwhile, a client's
config is made once, handed out unchanged, and gone only when the client is removed. -/

namespace AmneziaVpnBot.Vpnctl

open Records (Visit Follows)

/-- The clients' configs, by name. -/
def Server.configs (s : Server) (name : Text) : Option Text := s.readClientFile name .conf

variable {cfg : Settings} {e : Env} {s t : Server}

/-! ### Steps that touch no config -/

/-- Whether it succeeds or fails, the clients' configs stay. -/
def KeepsConfigs {α : Type} (c : Cmd α) : Prop := ∀ s, (c s).2.configs = s.configs

namespace KeepsConfigs

variable {α β : Type}

theorem pure (a : α) : KeepsConfigs (Pure.pure a : Cmd α) := fun _ => rfl

theorem throw (err : Error) : KeepsConfigs (Cmd.throw err : Cmd α) := fun _ => rfl

theorem ofExcept (x : Except Error α) : KeepsConfigs (Cmd.ofExcept x) := by
  cases x with
  | error err => exact throw err
  | ok a => exact pure a

theorem bind {c : Cmd α} {f : α → Cmd β} (hc : KeepsConfigs c) (hf : ∀ a, KeepsConfigs (f a)) :
    KeepsConfigs (c >>= f) := by
  intro s
  have hfirst := hc s
  cases h : c s with
  | mk result u =>
    rw [h] at hfirst
    cases result with
    | error err => rw [Cmd.bind_of_error h]; exact hfirst
    | ok a => rw [Cmd.bind_of_ok h]; exact (hf a u).trans hfirst

theorem get {f : Server → Cmd β} (hf : ∀ s, KeepsConfigs (f s)) : KeepsConfigs (Cmd.get >>= f) := fun s => hf s s

theorem awgSetPeer (pub psk ips : Option Text) : KeepsConfigs (Vpnctl.awgSetPeer cfg e pub psk ips) := by
  unfold Vpnctl.awgSetPeer
  split
  · exact (ofExcept _).bind fun _ _ => rfl
  · exact throw _

theorem awgRemovePeer (pub : Text) : KeepsConfigs (Vpnctl.awgRemovePeer cfg e pub) :=
  (ofExcept _).bind fun _ _ => rfl

theorem removeKey (pub : Option Text) : KeepsConfigs (Vpnctl.removeKey cfg e pub) := by
  cases pub with
  | none => exact pure ()
  | some pub => exact awgRemovePeer pub

theorem writePrivate {path : Path} (hpath : ∀ name, path ≠ .client name .conf) (text : Text) :
    KeepsConfigs (Vpnctl.writePrivate cfg e path text) := by
  unfold Vpnctl.writePrivate
  split
  · exact throw _
  · intro s
    cases path with
    | server => rfl
    | client name x =>
      funext n
      have hx : x ≠ .conf := fun hx => hpath name (hx ▸ rfl)
      exact (readClientFile_write s text name n x .conf).trans (if_neg fun h => hx h.2.symm)

theorem saveBlock (name block : Text) : KeepsConfigs (Vpnctl.saveBlock cfg e name block) := by
  refine get fun s => ?_
  split
  · exact writePrivate (fun _ => by rintro ⟨⟩) _
  · exact pure ()

theorem setPeerOf (block : Text) : KeepsConfigs (Vpnctl.setPeerOf cfg e block) := awgSetPeer _ _ _

theorem disablePeer (name : Text) : KeepsConfigs (Vpnctl.disablePeer cfg e name) := by
  refine (ofExcept _).bind fun name => get fun s => (ofExcept _).bind fun conf => ?_
  split
  · exact pure _
  · refine (saveBlock _ _).bind fun _ => (writePrivate (fun _ => by rintro ⟨⟩) _).bind fun _ => ?_
    exact (removeKey _).bind fun _ => pure _

theorem enablePeer (name : Text) : KeepsConfigs (Vpnctl.enablePeer cfg e name) := by
  refine (ofExcept _).bind fun name => get fun s => (ofExcept _).bind fun conf => ?_
  split
  · exact (setPeerOf _).bind fun _ => pure _
  · split
    · exact throw _
    · refine (ofExcept _).bind fun _ => (writePrivate (fun _ => by rintro ⟨⟩) _).bind fun _ => ?_
      exact (setPeerOf _).bind fun _ => pure _

theorem peerStatus (now : ℕ) (name : Text) : KeepsConfigs (Vpnctl.peerStatus cfg e now name) := by
  refine (ofExcept _).bind fun name => get fun s => (ofExcept _).bind fun conf => ?_
  dsimp only
  split
  · exact pure _
  · split
    · exact pure _
    · exact (ofExcept _).bind fun _ => (ofExcept _).bind fun _ => pure _

theorem getConfig (name : Text) : KeepsConfigs (Vpnctl.getConfig name) := by
  refine (ofExcept _).bind fun name => get fun s => ?_
  split
  · exact pure _
  · exact throw _

end KeepsConfigs

/-! ### Creating and removing -/

/-- When it fails, the clients' configs are still what they were. -/
def KeepsOnError {α : Type} (c : Cmd α) : Prop := ∀ s t err, c s = (.error err, t) → t.configs = s.configs

namespace KeepsOnError

variable {α β : Type}

theorem of_keeps {c : Cmd α} (h : KeepsConfigs c) : KeepsOnError c := by
  intro s t err hc
  have hkeep := h s
  rwa [hc] at hkeep

theorem bind {c : Cmd α} {f : α → Cmd β} (hc : KeepsConfigs c) (hf : ∀ a, KeepsOnError (f a)) :
    KeepsOnError (c >>= f) := by
  intro s t err hbind
  have hkeep := hc s
  cases h : c s with
  | mk result u =>
    rw [h] at hkeep
    cases result with
    | error err' =>
      rw [Cmd.bind_of_error h] at hbind
      obtain ⟨-, rfl⟩ := Prod.mk.inj hbind
      exact hkeep
    | ok a =>
      rw [Cmd.bind_of_ok h] at hbind
      exact (hf a u t err hbind).trans hkeep

theorem get {f : Server → Cmd β} (hf : ∀ s, KeepsOnError (f s)) : KeepsOnError (Cmd.get >>= f) :=
  fun s t err h => hf s s t err h

/-- What follows a step that fails never happens, and what follows here does not fail. -/
theorem thenReturn {c : Cmd α} (hc : KeepsOnError c) (b : β) : KeepsOnError (do let _ ← c; return b) := by
  intro s t err hbind
  cases h : c s with
  | mk result u =>
    cases result with
    | error err' =>
      rw [Cmd.bind_of_error h] at hbind
      obtain ⟨-, rfl⟩ := Prod.mk.inj hbind
      exact hc s u err' h
    | ok a =>
      rw [Cmd.bind_of_ok h] at hbind
      cases hbind

theorem onError {c : Cmd α} {cleanup : Cmd Unit} (hc : KeepsOnError c) (hcleanup : KeepsConfigs cleanup) :
    KeepsOnError (Cmd.onError c cleanup) := by
  intro s t err h
  unfold Cmd.onError at h
  cases hrun : c s with
  | mk result u =>
    rw [hrun] at h
    cases result with
    | ok a => cases h
    | error err' =>
      obtain ⟨-, rfl⟩ := Prod.mk.inj h
      exact (hcleanup u).trans (hc s u err' hrun)

theorem writePrivate (path : Path) (text : Text) : KeepsOnError (Vpnctl.writePrivate cfg e path text) := by
  intro s t err h
  unfold Vpnctl.writePrivate at h
  split at h
  · obtain ⟨-, rfl⟩ := Prod.mk.inj h
    rfl
  · cases h

/-- The config is the last file that a create writes. -/
theorem applyPlan (name : Text) (p : Plan) : KeepsOnError (Vpnctl.applyPlan cfg e name p) := by
  refine bind (.awgSetPeer _ _ _) fun _ => thenReturn (onError ?_ (.awgRemovePeer _)) _
  refine bind (.writePrivate (fun _ => by rintro ⟨⟩) _) fun _ => ?_
  exact bind (.writePrivate (fun _ => by rintro ⟨⟩) _) fun _ => writePrivate _ _

theorem createPeer (id label : Text) : KeepsOnError (Vpnctl.createPeer cfg e id label) := by
  refine bind (.ofExcept _) fun _ => bind (.ofExcept _) fun name => get fun s => ?_
  split
  · exact of_keeps (.pure _)
  · exact bind (.ofExcept _) fun p => applyPlan name p

/-- A remove takes the files away last. -/
theorem removePeer (name : Text) : KeepsOnError (Vpnctl.removePeer cfg e name) := by
  have hfinish : ∀ name pub, KeepsOnError (finishRemove cfg e name pub) := by
    intro name pub
    refine bind (.removeKey pub) fun _ => get fun s => ?_
    intro u t err h
    cases h
  refine bind (.ofExcept _) fun name => get fun s => bind (.ofExcept _) fun conf => ?_
  split
  · exact bind (.writePrivate (fun _ => by rintro ⟨⟩) _) fun _ => hfinish _ _
  · exact hfinish _ _

end KeepsOnError

/-! ### Visits -/

theorem configs_write_conf (s : Server) (name text : Text) :
    (s.write text (.client name .conf)).configs = Function.update s.configs name (some text) := by
  funext n
  rw [Server.configs, readClientFile_write, Function.update_apply]
  exact if_congr (and_iff_left rfl) rfl rfl

theorem configs_created (s : Server) (name : Text) (p : Plan) :
    (s.created name p).configs = Function.update s.configs name (some p.clientConf) := by
  rw [Server.created, configs_write_conf]
  congr 1
  funext n
  rw [Server.configs, readClientFile_write_server, readClientFile_write]
  exact if_neg fun h => by cases h.2

theorem configs_withoutFiles (s : Server) (name : Text) :
    (s.withoutFiles name).configs = Function.update s.configs name none := by
  funext n
  rw [Server.configs, Server.withoutFiles, readClientFile_remove, if_neg (fun h => by cases h.2), readClientFile_remove,
    Function.update_apply]
  exact if_congr (and_iff_left rfl) rfl rfl

/-- The configs after visits that are about clients with a proper name. -/
structure Visited (s : Server) (visits : List (Visit Text Text)) (t : Server) : Prop where
  follows : Follows s.configs visits t.configs
  valid : ∀ name config, .shown name config ∈ visits → isIdentifier (beforeNewline name) = true

theorem Visited.refl (s : Server) : Visited s [] s := ⟨.refl _, fun _ _ h => absurd h List.not_mem_nil⟩

theorem Visited.keep (h : t.configs = s.configs) : Visited s [] t :=
  ⟨h ▸ .refl _, fun _ _ h => absurd h List.not_mem_nil⟩

theorem Visited.shown {name config : Text} (h : Follows s.configs [.shown name config] t.configs)
    (hvalid : isIdentifier (beforeNewline name) = true) : Visited s [.shown name config] t := by
  refine ⟨h, fun name' config' hmem => ?_⟩
  obtain ⟨rfl, -⟩ := Visit.shown.inj (List.mem_singleton.mp hmem)
  exact hvalid

theorem isIdentifier_of_ok {field value name : Text} (h : validateIdentifier field value = .ok name) :
    isIdentifier (beforeNewline value) = true := by
  unfold validateIdentifier at h
  split at h
  next hvalid => exact hvalid
  · cases h

theorem validateIdentifier_of_isIdentifier (field : Text) {name : Text} (h : isIdentifier (beforeNewline name) = true) :
    validateIdentifier field name = .ok name := if_pos h

/-- A create that succeeds shows the client's config. -/
theorem visited_createPeer {id label : Text} {r : PeerResult} (h : createPeer cfg e id label s = (.ok r, t)) :
    r.label = label ∧ Visited s [.shown label r.config] t := by
  obtain ⟨hvalid, ⟨text, hfile, rfl⟩ | ⟨p, hnone, -, rfl, rfl⟩⟩ := createPeer_done h
  · rw [createPeer_existing h hfile]
    exact ⟨rfl, .shown (.same hfile) (isIdentifier_of_ok hvalid)⟩
  · refine ⟨rfl, .shown ?_ (isIdentifier_of_ok hvalid)⟩
    rw [configs_created]
    exact .shown (.inl hnone)

theorem visited_getConfig {name : Text} {r : PeerResult} (h : getConfig name s = (.ok r, t)) :
    r.label = name ∧ Visited s [.shown name r.config] t := by
  obtain ⟨name', u, hname, h₁⟩ := Cmd.bind_eq_ok.mp h
  obtain ⟨hvalid, rfl⟩ := Cmd.ofExcept_eq_ok.mp hname
  obtain rfl := validateIdentifier_eq_ok hvalid
  rw [Cmd.get_bind] at h₁
  cases hfile : u.readClientFile name' .conf with
  | none =>
    simp only [hfile] at h₁
    cases h₁
  | some text =>
    simp only [hfile] at h₁
    obtain ⟨hr, rfl⟩ := Prod.mk.inj h₁
    rw [← Except.ok.inj hr]
    exact ⟨rfl, .shown (.same hfile) (isIdentifier_of_ok hvalid)⟩

theorem removePeer_peerId {name : Text} {r : FoundResult} (h : removePeer cfg e name s = (.ok r, t)) :
    r.peerId = name := by
  have hfinish : ∀ {name pub} {s : Server}, finishRemove cfg e name pub s = (.ok r, t) → r.peerId = name := by
    intro name pub s h
    obtain ⟨_, w, -, h₁⟩ := Cmd.bind_eq_ok.mp h
    exact congrArg FoundResult.peerId (Except.ok.inj (Prod.mk.inj h₁).1).symm
  obtain ⟨name', u, hname, h₁⟩ := Cmd.bind_eq_ok.mp h
  obtain ⟨hvalid, rfl⟩ := Cmd.ofExcept_eq_ok.mp hname
  obtain rfl := validateIdentifier_eq_ok hvalid
  rw [Cmd.get_bind] at h₁
  obtain ⟨conf, v, -, h₂⟩ := Cmd.bind_eq_ok.mp h₁
  cases hfind : findPeer conf name' with
  | some found =>
    simp only [hfind] at h₂
    obtain ⟨_, w, -, h₃⟩ := Cmd.bind_eq_ok.mp h₂
    exact hfinish h₃
  | none =>
    simp only [hfind] at h₂
    exact hfinish h₂

theorem visited_removePeer {name : Text} {r : FoundResult} (h : removePeer cfg e name s = (.ok r, t)) :
    r.peerId = name ∧ Visited s [.dropped name] t := by
  obtain ⟨conf, hconf, ht⟩ := removePeer_done h
  have hbefore : ((s.unlisted conf name).1.dropKey (s.unlisted conf name).2).configs = s.configs := by
    funext n
    rw [Server.configs, readClientFile_dropKey, Server.unlisted]
    split <;> rfl
  refine ⟨removePeer_peerId h, ?_, fun _ _ hmem => by cases List.mem_singleton.mp hmem⟩
  rw [ht, configs_withoutFiles, hbefore]
  exact .dropped _ _

/-- What a command has shown or dropped when it ends so. -/
def ServeCommand.visits (c : ServeCommand) : Except Fault Result → List (Visit Text Text)
  | .ok (.peer r) => [.shown r.label r.config]
  | .ok (.found r) => if c = .removePeer then [.dropped r.peerId] else []
  | _ => []

theorem ServeCommand.visits_of_mem {c : ServeCommand} {outcome : Except Fault Result} {v : Visit Text Text}
    (h : v ∈ c.visits outcome) : c.visits outcome = [v] := by
  revert h
  unfold ServeCommand.visits
  split
  · intro h
    rw [List.mem_singleton.mp h]
  · split
    · intro h
      rw [List.mem_singleton.mp h]
    · exact fun h => absurd h List.not_mem_nil
  · exact fun h => absurd h List.not_mem_nil

theorem visited_answer {α : Type} {c : Cmd α} {f : α → Result} {command : ServeCommand} (hkeep : KeepsOnError c)
    (hok : ∀ s a t, c s = (.ok a, t) → Visited s (command.visits (.ok (f a))) t) (s : Server) :
    Visited s (command.visits (answer c f s).1) (answer c f s).2 := by
  unfold answer
  rcases hc : c s with ⟨err | a, t⟩
  · have hsame := hkeep s t err hc
    cases err <;> exact .keep hsame
  · exact hok s a t hc

theorem visited_onPeer {α : Type} {c : Text → Cmd α} {f : α → Result} {command : ServeCommand}
    (hkeep : ∀ name, KeepsOnError (c name))
    (hok : ∀ name s a t, c name s = (.ok a, t) → Visited s (command.visits (.ok (f a))) t) (peerId : Str) (s : Server) :
    Visited s (command.visits (onPeer c f peerId s).1) (onPeer c f peerId s).2 := by
  unfold onPeer
  split
  · exact visited_answer (hkeep _) (hok _) s
  · exact .refl s

/-- A command that has nothing to do with the configs. -/
theorem visited_onPeer_keeps {α : Type} {c : Text → Cmd α} {f : α → Result} {command : ServeCommand}
    (hkeep : ∀ name, KeepsConfigs (c name)) (hf : ∀ a, command.visits (.ok (f a)) = []) (peerId : Str) (s : Server) :
    Visited s (command.visits (onPeer c f peerId s).1) (onPeer c f peerId s).2 := by
  refine visited_onPeer (fun name => .of_keeps (hkeep name)) (fun name s a t h => ?_) peerId s
  have hsame := hkeep name s
  rw [h] at hsame
  rw [hf]
  exact .keep hsame

/-- Each command visits the records as its answer says. -/
theorem visited_run (command : ServeCommand) (cfg : Settings) (e : Env) (now : ℕ)
    (args : List (Str × Str)) (s : Server) :
    Visited s (command.visits (command.run cfg e now args s).1) (command.run cfg e now args s).2 := by
  cases command with
  | createPeer =>
    rw [ServeCommand.run]
    unfold onSubscription
    split
    · exact .refl s
    · split
      · refine visited_answer (.createPeer _ _) ?_ s
        intro s r t h
        obtain ⟨hlabel, hvisited⟩ := visited_createPeer h
        rwa [← hlabel] at hvisited
      · split <;> exact .refl s
  | disablePeer => exact visited_onPeer_keeps .disablePeer (fun _ => rfl) _ s
  | enablePeer => exact visited_onPeer_keeps .enablePeer (fun _ => rfl) _ s
  | removePeer =>
    refine visited_onPeer .removePeer ?_ _ s
    intro name s r t h
    obtain ⟨hname, hvisited⟩ := visited_removePeer h
    rwa [← hname] at hvisited
  | peerStatus => exact visited_onPeer_keeps (.peerStatus now) (fun _ => rfl) _ s
  | getConfig =>
    refine visited_onPeer (fun name => .of_keeps (.getConfig name)) ?_ _ s
    intro name s r t h
    obtain ⟨hlabel, hvisited⟩ := visited_getConfig h
    rwa [← hlabel] at hvisited

/-! ### Connections -/

/-- One connection, with the `vpnctl.conf` it finds. -/
structure Connection where
  world : World
  file : Option Text
  caller : Caller

def Request.visits (r : Request) (outcome : Except Fault Result) : List (Visit Text Text) :=
  match r.command with
  | some (.string command) => (serveCommand command).elim [] (·.visits outcome)
  | _ => []

/-- What a host holds: `folder` tells which folder a `CONF_DIR` names, and a folder has one config for
each interface and one clients folder. -/
structure Host (φ : Type) where
  conf : φ → Text → Option Text
  clients : φ → AList fun _ : Text => Text
  live : Text → Text → Option LivePeer

variable {φ : Type} {folder : Text → φ} {h h' h'' : Host φ}

/-- The server of the settings. -/
def Host.server (folder : Text → φ) (h : Host φ) (cfg : Settings) : Server where
  conf := h.conf (folder cfg.confDir) cfg.interface
  clients := h.clients (folder cfg.confDir)
  live := h.live cfg.interface

/-- The clients' configs, by folder and name. -/
def Host.configs (h : Host φ) : φ × Text → Option Text :=
  Function.uncurry fun dir name => (h.clients dir).lookup (name ++ Ext.conf.text)

theorem configs_server (cfg : Settings) (name : Text) :
    (h.server folder cfg).configs name = h.configs (folder cfg.confDir, name) := rfl

/-- What a connection has shown or dropped, by folder and name. -/
def visits (folder : Text → φ) (h : Host φ) (c : Connection) : List (Visit (φ × Text) Text) :=
  match loadSettings c.file with
  | .error _ => []
  | .ok cfg => match accept c.world cfg c.caller with
    | .error _ => []
    | .ok request =>
      let outcome := (handle cfg c.world.env c.world.now request (h.server folder cfg.settings)).1
      (request.visits outcome).map (Visit.within (folder cfg.settings.confDir))

theorem visited_handle (cfg : Config) (e : Env) (now : ℕ) (request : Request) (s : Server) :
    Visited s (request.visits (handle cfg e now request s).1) (handle cfg e now request s).2 := by
  rw [handle, Request.visits]
  cases hcommand : request.command with
  | none => exact .refl s
  | some value =>
    cases value with
    | string command =>
      cases hserve : serveCommand command with
      | none =>
        simp only [hserve, Option.elim_none]
        exact .refl s
      | some c =>
        simp only [hserve, Option.elim_some]
        cases hargs : c.values request.args with
        | none => exact .refl s
        | some args =>
          dsimp only
          split
          · exact visited_run c cfg.settings e now args s
          · exact .refl s
    | _ => exact .refl s

theorem Request.visits_of_mem {r : Request} {outcome : Except Fault Result} {v : Visit Text Text}
    (hv : v ∈ r.visits outcome) : r.visits outcome = [v] := by
  revert hv
  unfold Request.visits
  split
  · rename_i command _
    cases serveCommand command with
    | none => exact fun hv => absurd hv List.not_mem_nil
    | some c => exact ServeCommand.visits_of_mem
  · exact fun hv => absurd hv List.not_mem_nil

/-- A connection shows one config at most, under a proper name. -/
theorem visits_of_shown {c : Connection} {dir : φ} {name config : Text}
    (hv : .shown (dir, name) config ∈ visits folder h c) :
    visits folder h c = [.shown (dir, name) config] ∧ isIdentifier (beforeNewline name) = true := by
  revert hv
  unfold visits
  cases loadSettings c.file with
  | error err => exact fun hv => absurd hv List.not_mem_nil
  | ok cfg =>
    dsimp only
    cases accept c.world cfg c.caller with
    | error fault => exact fun hv => absurd hv List.not_mem_nil
    | ok request =>
      intro hv
      obtain ⟨v, hv, hwithin⟩ := List.mem_map.mp hv
      cases v with
      | dropped name' => cases hwithin
      | shown name' config' =>
        cases hwithin
        have hvisited := visited_handle cfg c.world.env c.world.now request (h.server folder cfg.settings)
        dsimp only
        rw [Request.visits_of_mem hv]
        exact ⟨rfl, hvisited.valid _ _ hv⟩

variable [DecidableEq φ]

def Host.withServer (folder : Text → φ) (h : Host φ) (cfg : Settings) (s : Server) : Host φ where
  conf := Function.update h.conf (folder cfg.confDir)
    (Function.update (h.conf (folder cfg.confDir)) cfg.interface s.conf)
  clients := Function.update h.clients (folder cfg.confDir) s.clients
  live := Function.update h.live cfg.interface s.live

/-- A connection is served with the settings it finds, and acts on their server. -/
def connect (folder : Text → φ) (h : Host φ) (c : Connection) : Option (Host φ) :=
  match loadSettings c.file with
  | .error _ => some h
  | .ok cfg => some (h.withServer folder cfg.settings (serve c.world c.file c.caller (h.server folder cfg.settings)).2)

theorem configs_withServer (cfg : Settings) (s : Server) :
    (h.withServer folder cfg s).configs =
      Function.uncurry (Function.update (Function.curry h.configs) (folder cfg.confDir) s.configs) := by
  rw [Host.configs]
  congr 1
  funext dir
  simp only [Host.withServer, Function.update_apply]
  split <;> rfl

theorem Visited.withServer {cfg : Settings} {vs : List (Visit Text Text)}
    (hv : Visited (h.server folder cfg) vs t) :
    Follows h.configs (vs.map (Visit.within (folder cfg.confDir))) (h.withServer folder cfg t).configs := by
  rw [configs_withServer]
  have hone : Follows (Function.curry h.configs (folder cfg.confDir)) vs t.configs := hv.follows
  exact hone.within

theorem follows_connect {c : Connection} (hc : connect folder h c = some h') :
    Follows h.configs (visits folder h c) h'.configs := by
  unfold connect at hc
  unfold visits
  cases hcfg : loadSettings c.file with
  | error err =>
    rw [hcfg] at hc
    obtain rfl := Option.some.inj hc
    exact .refl _
  | ok cfg =>
    rw [hcfg] at hc
    obtain rfl := Option.some.inj hc
    rw [serve, hcfg]
    dsimp only
    cases haccept : accept c.world cfg c.caller with
    | error fault => exact (Visited.refl _).withServer
    | ok request => exact (visited_handle cfg c.world.env c.world.now request _).withServer

theorem follows_connections {cs : List Connection} (hcs : Machine.run (connect folder) h cs = some h') :
    Follows h.configs (Machine.log (connect folder) (visits folder) h cs) h'.configs :=
  Follows.run (G := fun _ _ => True) (I := fun _ => True) (fun _ _ _ _ _ hstep => ⟨trivial, follows_connect hstep⟩)
    (Machine.along_true h cs) hcs trivial

/-- A config that was handed out is the client's until the client is removed: whatever connections the host serves
until then, with whatever settings, and whatever fails meanwhile, nothing else is handed out under the client's name
in that folder, and a further request for it is answered with that config and changes nothing. -/
theorem config_stays {c : Connection} {dir : φ} {name config : Text} {cs : List Connection}
    (hshown : .shown (dir, name) config ∈ visits folder h c) (hc : connect folder h c = some h')
    (hcs : Machine.run (connect folder) h' cs = some h'')
    (hkept : .dropped (dir, name) ∉ Machine.log (connect folder) (visits folder) h' cs) :
    (∀ other, .shown (dir, name) other ∈ Machine.log (connect folder) (visits folder) h' cs → other = config) ∧
      ∀ cfg, folder cfg.confDir = dir →
        getConfig name (h''.server folder cfg) = (.ok (peerResult name config none none), h''.server folder cfg) ∧
        ∀ e id, validateUuid id = .ok () → createPeer cfg e id name (h''.server folder cfg) =
          (.ok (peerResult name config none (some true)), h''.server folder cfg) := by
  obtain ⟨hone, hvalid⟩ := visits_of_shown hshown
  have hfirst := follows_connect hc
  rw [hone] at hfirst
  obtain ⟨hend, hrest⟩ := (follows_connections hcs).keep hfirst.of_shown hkept
  refine ⟨hrest, fun cfg hdir => ?_⟩
  have hfile : (h''.server folder cfg).readClientFile name .conf = some config := by
    rw [← hdir, ← configs_server] at hend
    exact hend
  refine ⟨?_, fun e id hid => ?_⟩
  · rw [getConfig, validateIdentifier_of_isIdentifier _ hvalid, Cmd.ofExcept_ok_bind, Cmd.get_bind, hfile]
    rfl
  · rw [createPeer, hid, Cmd.ofExcept_ok_bind, validateIdentifier_of_isIdentifier _ hvalid, Cmd.ofExcept_ok_bind,
      Cmd.get_bind, hfile]
    rfl

section Small

/-- A line on standard input, and a `vpnctl.conf` with one more setting than the host's address. -/
def smallConnection (setting line : String) : Connection :=
  ⟨smallWorld, some ("ENDPOINT_HOST=vpn.example.org\n" ++ setting).toList, .stdin (utf8 line)⟩

def smallCreate (setting : String) : Connection := smallConnection setting
  "\x7b\"command\": \"create-peer\", \"args\": \x7b\"subscription_id\": \"3f2b8c1e-0000-4000-8000-000000000001\", \"label\": \"ann\"\x7d\x7d"

def smallDisable : Connection :=
  smallConnection "" "\x7b\"command\": \"disable-peer\", \"args\": \x7b\"peer_id\": \"ann\"\x7d\x7d"

/-- A host with nothing but the small server's config in each folder. -/
def smallHost : Host Text := ⟨fun _ _ => smallServer.conf, fun _ => smallServer.clients, fun _ => smallServer.live⟩

/-- The client is disabled, and one of that name is asked for in another folder. -/
def smallConnections : List Connection := [smallDisable, smallCreate "CONF_DIR=/srv/other"]

def smallCreated : Host Text := (connect id smallHost (smallCreate "")).getD smallHost

def smallDisabled : Host Text := (Machine.run (connect id) smallCreated smallConnections).getD smallCreated

theorem config_stays_small : getConfig "ann".toList (smallDisabled.server id smallSettings) =
    (.ok (peerResult "ann".toList ((smallCreated.configs (smallSettings.confDir, "ann".toList)).getD []) none none),
      smallDisabled.server id smallSettings) := by
  have hshown : .shown (smallSettings.confDir, "ann".toList)
      ((smallCreated.configs (smallSettings.confDir, "ann".toList)).getD []) ∈ visits id smallHost
        (smallCreate "") := by
    decide +kernel
  have hcreate : connect id smallHost (smallCreate "") = some smallCreated := rfl
  have hrun : Machine.run (connect id) smallCreated smallConnections = some smallDisabled := rfl
  exact ((config_stays hshown hcreate hrun (by decide +kernel)).2 smallSettings (by decide +kernel)).1

end Small

end AmneziaVpnBot.Vpnctl
