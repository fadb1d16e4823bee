import AmneziaVpnBot.Vpnctl.Commands
import AmneziaVpnBot.Vpnctl.Blocks

/-! What each command does to a server, case by case: the state it ends in, and what it
returns there. Everything said later about runs is a case analysis over these. -/

namespace AmneziaVpnBot.Vpnctl

open Text

/-! ### Files -/

theorem Ext.length_text (x : Ext) : x.text.length = 5 := by cases x <;> decide

theorem fileName_inj {n m : Text} {x y : Ext} : n ++ x.text = m ++ y.text ↔ n = m ∧ x = y := by
  constructor
  · intro h
    obtain ⟨hn, hx⟩ := List.append_inj' h (by rw [Ext.length_text, Ext.length_text])
    refine ⟨hn, ?_⟩
    revert hx
    cases x <;> cases y <;> decide
  · rintro ⟨rfl, rfl⟩
    rfl

theorem readClientFile_write (s : Server) (t n m : Text) (x y : Ext) :
    (s.write t (.client n x)).readClientFile m y = if m = n ∧ y = x then some t else s.readClientFile m y := by
  rw [Server.readClientFile, Server.readClientFile, Server.write]
  split_ifs with h
  · rw [h.1, h.2, AList.lookup_insert]
  · exact AList.lookup_insert_ne fun he => h (fileName_inj.mp he)

theorem readClientFile_remove (s : Server) (n m : Text) (x y : Ext) :
    (s.removeClientFile n x).readClientFile m y = if m = n ∧ y = x then none else s.readClientFile m y := by
  rw [Server.readClientFile, Server.readClientFile, Server.removeClientFile]
  split_ifs with h
  · rw [h.1, h.2, AList.lookup_erase]
  · exact AList.lookup_erase_ne fun he => h (fileName_inj.mp he)

@[simp] theorem conf_write_server (s : Server) (t : Text) : (s.write t .server).conf = some t := rfl

@[simp] theorem conf_write_client (s : Server) (t n : Text) (x : Ext) : (s.write t (.client n x)).conf = s.conf := rfl

@[simp] theorem clients_write_server (s : Server) (t : Text) : (s.write t .server).clients = s.clients := rfl

@[simp] theorem live_write (s : Server) (t : Text) (p : Path) : (s.write t p).live = s.live := by cases p <;> rfl

@[simp] theorem readClientFile_write_server (s : Server) (t n : Text) (x : Ext) :
    (s.write t .server).readClientFile n x = s.readClientFile n x := rfl

@[simp] theorem conf_removeClientFile (s : Server) (n : Text) (x : Ext) : (s.removeClientFile n x).conf = s.conf := rfl

@[simp] theorem live_removeClientFile (s : Server) (n : Text) (x : Ext) : (s.removeClientFile n x).live = s.live := rfl

@[simp] theorem conf_setPeer (s : Server) (a b c : Text) : (s.setPeer a b c).conf = s.conf := rfl

@[simp] theorem clients_setPeer (s : Server) (a b c : Text) : (s.setPeer a b c).clients = s.clients := rfl

@[simp] theorem readClientFile_setPeer (s : Server) (a b c n : Text) (x : Ext) :
    (s.setPeer a b c).readClientFile n x = s.readClientFile n x := rfl

/-- The live peer of that key, if one is known, is gone. -/
def Server.dropKey (s : Server) : Option Text → Server
  | some pub => s.removePeer pub
  | none => s

@[simp] theorem conf_dropKey (s : Server) (pub : Option Text) : (s.dropKey pub).conf = s.conf := by cases pub <;> rfl

@[simp] theorem clients_dropKey (s : Server) (pub : Option Text) : (s.dropKey pub).clients = s.clients := by
  cases pub <;> rfl

@[simp] theorem readClientFile_dropKey (s : Server) (pub : Option Text) (n : Text) (x : Ext) :
    (s.dropKey pub).readClientFile n x = s.readClientFile n x := by
  cases pub <;> rfl

theorem live_dropKey (s : Server) (pub : Option Text) (k : Text) :
    (s.dropKey pub).live k = if pub = some k then none else s.live k := by
  cases pub with
  | none => simp [Server.dropKey]
  | some p =>
    simp only [Server.dropKey, Server.removePeer, Function.update_apply, Option.some.injEq]
    exact if_congr eq_comm rfl rfl

theorem live_setPeer (s : Server) (pub psk ips k : Text) :
    (s.setPeer pub psk ips).live k =
      if k = pub then some { (s.live pub).getD ⟨[], [], 0, 0, 0⟩ with psk := strip psk, allowedIps := ips }
      else s.live k :=
  Function.update_apply ..

/-! ### Steps -/

/-- Every file replacement succeeds. -/
def Env.FilesOk (e : Env) : Prop := ∀ p, e.replaceFails p = false

variable {cfg : Settings} {e : Env} {s : Server}

theorem readConf_ok {conf : Text} (h : s.conf = some conf) : readConf cfg s = .ok conf := by rw [readConf, h]

theorem of_readConf {conf : Text} (h : readConf cfg s = .ok conf) : s.conf = some conf := by
  rw [readConf] at h
  split at h
  · rename_i hconf
    rw [hconf, Except.ok.inj h]
  · cases h

theorem awgRun_ok {call : AwgCall} (h : e.awgError call = none) (args out : Text) :
    awgRun e call args out = .ok (strip out) := by
  rw [awgRun, h]

theorem awgRun_failed {call : AwgCall} (h : e.awgError call ≠ none) (args out : Text) :
    ∃ err, awgRun e call args out = .error err := by
  obtain ⟨stderr, h⟩ := Option.ne_none_iff_exists'.mp h
  exact ⟨_, by rw [awgRun, h]⟩

theorem awgSetPeer_ok (h : e.awgError .setPeer = none) (pub psk ips : Text) (s : Server) :
    awgSetPeer cfg e (some pub) (some psk) (some ips) s = (.ok (), s.setPeer pub psk ips) := by
  rw [awgSetPeer, awgRun_ok h]
  rfl

variable (cfg) in
theorem awgSetPeer_failed (h : e.awgError .setPeer ≠ none) (pub psk ips : Option Text) (s : Server) :
    ∃ err, awgSetPeer cfg e pub psk ips s = (.error err, s) := by
  obtain ⟨err, h⟩ := awgRun_failed h ("set ".toList ++ cfg.interface) []
  unfold awgSetPeer
  split
  · exact ⟨err, by rw [h]; rfl⟩
  · exact ⟨_, rfl⟩

theorem awgRemovePeer_ok (h : e.awgError .removePeer = none) (pub : Text) (s : Server) :
    awgRemovePeer cfg e pub s = (.ok (), s.removePeer pub) := by
  rw [awgRemovePeer, awgRun_ok h]
  rfl

theorem removeKey_ok {pub : Option Text} (h : e.awgError .removePeer = none ∨ pub = none) (s : Server) :
    removeKey cfg e pub s = (.ok (), s.dropKey pub) := by
  cases pub with
  | none => rfl
  | some pub => exact awgRemovePeer_ok (h.resolve_right (by simp)) pub s

variable (cfg) in
theorem removeKey_failed {pub : Option Text} (h : e.awgError .removePeer ≠ none) (hpub : pub ≠ none) (s : Server) :
    ∃ err, removeKey cfg e pub s = (.error err, s) := by
  obtain ⟨pub, rfl⟩ := Option.ne_none_iff_exists'.mp hpub
  obtain ⟨err, h⟩ := awgRun_failed h ("set ".toList ++ cfg.interface) []
  exact ⟨err, by rw [removeKey, awgRemovePeer, h]; rfl⟩

theorem writePrivate_ok {path : Path} (h : e.replaceFails path = false) (t : Text) (s : Server) :
    writePrivate cfg e path t s = (.ok (), s.write t path) := by
  rw [writePrivate, h]
  rfl

theorem writePrivate_failed {path : Path} (h : e.replaceFails path = true) (t : Text) (s : Server) :
    writePrivate cfg e path t s = (.error (.osError (path.text cfg)), s) := by
  rw [writePrivate, h]
  rfl

/-- The client has a saved block: its own, or the one given. -/
def Server.saveBlock (s : Server) (name block : Text) : Server :=
  if (s.readClientFile name .peer).isNone then s.write (rstripNl block ++ ['\n']) (.client name .peer) else s

theorem saveBlock_ok (h : e.FilesOk) (name block : Text) (s : Server) :
    saveBlock cfg e name block s = (.ok (), s.saveBlock name block) := by
  rw [saveBlock, Cmd.get_bind, Server.saveBlock]
  split
  · exact writePrivate_ok (h _) _ s
  · rfl

@[simp] theorem conf_saveBlock (s : Server) (n b : Text) : (s.saveBlock n b).conf = s.conf := by
  rw [Server.saveBlock]
  split <;> rfl

@[simp] theorem live_saveBlock (s : Server) (n b : Text) : (s.saveBlock n b).live = s.live := by
  rw [Server.saveBlock]
  split <;> simp

theorem readClientFile_saveBlock (s : Server) (n b m : Text) (x : Ext) :
    (s.saveBlock n b).readClientFile m x =
      if m = n ∧ x = .peer then some ((s.readClientFile n .peer).getD (rstripNl b ++ ['\n']))
      else s.readClientFile m x := by
  rw [Server.saveBlock]
  cases h : s.readClientFile n .peer with
  | none => simp [readClientFile_write]
  | some t =>
    simp only [Option.isNone_some, Bool.false_eq_true, if_false, Option.getD_some]
    split_ifs with hm
    · rw [hm.1, hm.2, h]
    · rfl

/-! ### Creating -/

/-- The key pair and preshared key a create would use. -/
def Env.newPub (e : Env) : Text := strip (e.pubkey (strip e.genkey ++ ['\n']))

def Env.newPsk (e : Env) : Text := strip e.genpsk

/-- The server once `p` is carried out for the client. -/
def Server.created (s : Server) (name : Text) (p : Plan) : Server :=
  let block := peerBlock name p.pub p.psk p.allowedIps
  (((s.setPeer p.pub p.psk p.allowedIps).write block (.client name .peer)).write (addBlock p.conf block) .server).write
    p.clientConf (.client name .conf)

theorem awgRun_eq_ok {call : AwgCall} {args out t : Text} :
    awgRun e call args out = .ok t ↔ e.awgError call = none ∧ t = strip out := by
  cases h : e.awgError call with
  | none => simp [awgRun, h, eq_comm]
  | some err => simp [awgRun, h]

/-- Where a plan comes from. -/
theorem planCreate_eq_ok {p : Plan} (h : planCreate cfg e s = .ok p) :
    ∃ conf iface address port serverPriv ip, s.conf = some conf ∧
      interfaceSettings cfg conf = .ok (iface, address, port, serverPriv) ∧ freeAddress s conf address = .ok ip ∧
      p.pub = e.newPub ∧ p.psk = e.newPsk ∧ p.allowedIps = ip.text ++ "/32".toList ∧ p.conf = conf := by
  simp only [planCreate, Except.bind_eq_ok, awgRun_eq_ok] at h
  obtain ⟨conf, hconf, ⟨iface, address, port, serverPriv⟩, hset, ip, hip, priv, ⟨-, rfl⟩, pub, ⟨-, rfl⟩,
    psk, ⟨-, rfl⟩, -, ⟨-, rfl⟩, host, -, hp⟩ := h
  obtain rfl := Except.ok.inj hp
  exact ⟨conf, iface, address, port, serverPriv, ip, of_readConf hconf, hset, hip, rfl, rfl, rfl, rfl⟩

theorem applyPlan_ok (hf : e.FilesOk) (hset : e.awgError .setPeer = none) (name : Text) (p : Plan) (s : Server) :
    applyPlan cfg e name p s =
      (.ok (peerResult name p.clientConf (some p.allowedIps) (some false)), s.created name p) := by
  rw [applyPlan, Cmd.bind_of_ok (awgSetPeer_ok hset _ _ _ s)]
  have hfiles : ∀ (t : Server) (block : Text),
      (do
        writePrivate cfg e (.client name .peer) block
        writePrivate cfg e .server (addBlock p.conf block)
        writePrivate cfg e (.client name .conf) p.clientConf : Cmd Unit) t =
      (.ok (), ((t.write block (.client name .peer)).write (addBlock p.conf block) .server).write p.clientConf
        (.client name .conf)) := by
    intro t block
    rw [Cmd.bind_of_ok (writePrivate_ok (hf _) _ _), Cmd.bind_of_ok (writePrivate_ok (hf _) _ _),
      writePrivate_ok (hf _)]
  simp only [bind, Cmd.onError] at hfiles ⊢
  rw [hfiles]
  rfl

variable (cfg) in
theorem applyPlan_failed (hset : e.awgError .setPeer ≠ none) (name : Text) (p : Plan) (s : Server) :
    ∃ err, applyPlan cfg e name p s = (.error err, s) := by
  obtain ⟨err, h⟩ := awgSetPeer_failed cfg hset (some p.pub) (some p.psk) (some p.allowedIps) s
  exact ⟨err, by rw [applyPlan, Cmd.bind_of_error h]⟩

theorem validateIdentifier_eq_ok {field value name : Text} (h : validateIdentifier field value = .ok name) :
    name = value := by
  rw [validateIdentifier] at h
  split at h
  · exact (Except.ok.inj h).symm
  · cases h

variable (cfg) in
/-- A create changes nothing, or carries out a plan for a client without a config. -/
theorem createPeer_cases (hf : e.FilesOk) (id label : Text) (s : Server) :
    (∃ r, createPeer cfg e id label s = (r, s)) ∨
      ∃ p, s.readClientFile label .conf = none ∧ planCreate cfg e s = .ok p ∧
        createPeer cfg e id label s =
          (.ok (peerResult label p.clientConf (some p.allowedIps) (some false)), s.created label p) := by
  rw [createPeer]
  cases validateUuid id with
  | error err => exact .inl ⟨_, rfl⟩
  | ok =>
    rw [Cmd.ofExcept_ok_bind]
    cases hname : validateIdentifier "label".toList label with
    | error err => exact .inl ⟨_, rfl⟩
    | ok name =>
      rw [Cmd.ofExcept_ok_bind, Cmd.get_bind, validateIdentifier_eq_ok hname]
      cases hconf : s.readClientFile label .conf with
      | some text => exact .inl ⟨_, rfl⟩
      | none =>
        cases hp : planCreate cfg e s with
        | error err => exact .inl ⟨_, rfl⟩
        | ok p =>
          simp only [Cmd.ofExcept_ok_bind]
          by_cases hset : e.awgError .setPeer = none
          · exact .inr ⟨p, trivial, rfl, applyPlan_ok hf hset label p s⟩
          · obtain ⟨err, h⟩ := applyPlan_failed cfg hset label p s
            exact .inl ⟨_, h⟩

/-! ### Turning off and on -/

variable (cfg) in
/-- A disable changes nothing and reports an error or that there is no block; or it takes out
the block, saving it first, and then the live peer, where `awg` may fail. -/
theorem disablePeer_cases (hf : e.FilesOk) (name : Text) (s : Server) :
    (∃ err, disablePeer cfg e name s = (.error err, s)) ∨
      ∃ conf, s.conf = some conf ∧
        ((findPeer conf name = none ∧
            disablePeer cfg e name s = (.ok ⟨name, (s.readClientFile name .peer).isSome⟩, s)) ∨
          ∃ block pub, findPeer conf name = some (block, pub) ∧
            let t := (s.saveBlock name block).write (withoutPeer conf name) .server
            ((e.awgError .removePeer = none ∨ pub = none) ∧
              disablePeer cfg e name s = (.ok ⟨name, true⟩, t.dropKey pub) ∨
              (e.awgError .removePeer ≠ none ∧ pub ≠ none) ∧ ∃ err, disablePeer cfg e name s = (.error err, t))) := by
  rw [disablePeer]
  cases hname : validateIdentifier "peer_id".toList name with
  | error err => exact .inl ⟨_, rfl⟩
  | ok name' =>
    obtain rfl := validateIdentifier_eq_ok hname
    rw [Cmd.ofExcept_ok_bind, Cmd.get_bind]
    cases hconf : s.conf with
    | none => exact .inl ⟨_, by rw [readConf, hconf]; rfl⟩
    | some conf =>
      refine .inr ⟨conf, rfl, ?_⟩
      rw [readConf_ok hconf, Cmd.ofExcept_ok_bind]
      cases hfind : findPeer conf name' with
      | none => exact .inl ⟨rfl, rfl⟩
      | some found =>
        obtain ⟨block, pub⟩ := found
        refine .inr ⟨block, pub, rfl, ?_⟩
        simp only [Cmd.bind_of_ok (saveBlock_ok hf _ _ _), Cmd.bind_of_ok (writePrivate_ok (hf _) _ _)]
        by_cases hrem : e.awgError .removePeer = none ∨ pub = none
        · exact .inl ⟨hrem, by rw [Cmd.bind_of_ok (removeKey_ok hrem _)]; rfl⟩
        · rw [not_or] at hrem
          obtain ⟨err, h⟩ := removeKey_failed cfg hrem.1 hrem.2 _
          exact .inr ⟨hrem, err, by rw [Cmd.bind_of_error h]⟩

/-- The three settings of a saved block that a live peer is set up with. -/
def peerValues (block : Text) : Option (Text × Text × Text) :=
  (getValue (savedLines block) publicKey).bind fun pub =>
    (getValue (savedLines block) presharedKey).bind fun psk =>
      (getValue (savedLines block) allowedIpsKey).map fun ips => (pub, psk, ips)

variable (cfg) in
theorem setPeerOf_cases (block : Text) (s : Server) :
    (∃ pub psk ips, e.awgError .setPeer = none ∧ peerValues block = some (pub, psk, ips) ∧
        setPeerOf cfg e block s = (.ok (), s.setPeer pub psk ips)) ∨
      (e.awgError .setPeer ≠ none ∨ peerValues block = none) ∧ ∃ err, setPeerOf cfg e block s = (.error err, s) := by
  by_cases hset : e.awgError .setPeer = none
  · rw [setPeerOf, peerValues]
    cases getValue (savedLines block) publicKey with
    | none => exact .inr ⟨.inr rfl, _, rfl⟩
    | some pub =>
      cases getValue (savedLines block) presharedKey with
      | none => exact .inr ⟨.inr rfl, _, rfl⟩
      | some psk =>
        cases getValue (savedLines block) allowedIpsKey with
        | none => exact .inr ⟨.inr rfl, _, rfl⟩
        | some ips => exact .inl ⟨pub, psk, ips, hset, rfl, awgSetPeer_ok hset pub psk ips s⟩
  · exact .inr ⟨.inl hset, awgSetPeer_failed _ hset _ _ _ s⟩

variable (cfg) in
/-- An enable changes nothing; or it sets up the live peer of the block in the config; or it puts
the saved block back and sets up its peer, where the latter may fail. -/
theorem enablePeer_cases (hf : e.FilesOk) (name : Text) (s : Server) :
    (∃ err, enablePeer cfg e name s = (.error err, s)) ∨
      ∃ conf, s.conf = some conf ∧
        ((∃ block key pub psk ips, findPeer conf name = some (block, key) ∧ e.awgError .setPeer = none ∧
            peerValues block = some (pub, psk, ips) ∧
            enablePeer cfg e name s = (.ok ⟨name, true⟩, s.setPeer pub psk ips)) ∨
          ∃ block, findPeer conf name = none ∧ s.readClientFile name .peer = some block ∧
            checkAddress s conf name block = .ok () ∧
            let t := s.write (addBlock conf (rstripNl block ++ ['\n'])) .server
            ((∃ pub psk ips, e.awgError .setPeer = none ∧ peerValues block = some (pub, psk, ips) ∧
                enablePeer cfg e name s = (.ok ⟨name, true⟩, t.setPeer pub psk ips)) ∨
              (e.awgError .setPeer ≠ none ∨ peerValues block = none) ∧
                ∃ err, enablePeer cfg e name s = (.error err, t))) := by
  rw [enablePeer]
  cases hname : validateIdentifier "peer_id".toList name with
  | error err => exact .inl ⟨_, rfl⟩
  | ok name' =>
    obtain rfl := validateIdentifier_eq_ok hname
    rw [Cmd.ofExcept_ok_bind, Cmd.get_bind]
    cases hconf : s.conf with
    | none => exact .inl ⟨_, by rw [readConf, hconf]; rfl⟩
    | some conf =>
      rw [readConf_ok hconf, Cmd.ofExcept_ok_bind]
      cases hfind : findPeer conf name' with
      | some found =>
        obtain ⟨block, key⟩ := found
        rcases setPeerOf_cases cfg (e := e) block s with ⟨pub, psk, ips, hset, hvalues, h⟩ | ⟨-, err, h⟩
        · exact .inr ⟨conf, rfl, .inl ⟨block, key, pub, psk, ips, hfind, hset, hvalues, by
            simp only [Cmd.bind_of_ok h, Cmd.pure_apply]⟩⟩
        · exact .inl ⟨err, by simp only [Cmd.bind_of_error h]⟩
      | none =>
        cases hsaved : s.readClientFile name' .peer with
        | none => exact .inl ⟨_, rfl⟩
        | some block =>
          cases hcheck : checkAddress s conf name' block with
          | error err => exact .inl ⟨err, by simp only [hcheck, Cmd.ofExcept_error_bind]⟩
          | ok =>
            refine .inr ⟨conf, rfl, .inr ⟨block, hfind, rfl, hcheck, ?_⟩⟩
            simp only [hcheck, Cmd.ofExcept_ok_bind, Cmd.bind_of_ok (writePrivate_ok (hf _) _ _)]
            rcases setPeerOf_cases cfg (e := e) block
              (s.write (addBlock conf (rstripNl block ++ ['\n'])) .server) with
              ⟨pub, psk, ips, hset, hvalues, h⟩ | ⟨hfail, err, h⟩
            · exact .inl ⟨pub, psk, ips, hset, hvalues, by rw [Cmd.bind_of_ok h]; rfl⟩
            · exact .inr ⟨hfail, err, by rw [Cmd.bind_of_error h]⟩

/-! ### Removing -/

/-- The server without the client's files. -/
def Server.withoutFiles (s : Server) (name : Text) : Server :=
  (s.removeClientFile name .conf).removeClientFile name .peer

theorem finishRemove_ok {pub : Option Text} (h : e.awgError .removePeer = none ∨ pub = none)
    (name : Text) (s : Server) :
    finishRemove cfg e name pub s =
      (.ok ⟨name, pub.isSome || (s.readClientFile name .conf).isSome⟩, (s.dropKey pub).withoutFiles name) := by
  rw [finishRemove, Cmd.bind_of_ok (removeKey_ok h s), Cmd.get_bind, Cmd.modify_bind, readClientFile_dropKey]
  rfl

theorem finishRemove_failed {pub : Option Text} (h : e.awgError .removePeer ≠ none ∧ pub ≠ none) (name : Text)
    (s : Server) : ∃ err, finishRemove cfg e name pub s = (.error err, s) := by
  obtain ⟨err, h⟩ := removeKey_failed cfg h.1 h.2 s
  exact ⟨err, by rw [finishRemove, Cmd.bind_of_error h]⟩

/-- The server a remove goes on with after its change of the config, and the key it then takes
out of the live interface. -/
def Server.unlisted (s : Server) (conf name : Text) : Server × Option Text :=
  match findPeer conf name with
  | some (_, pub) => (s.write (withoutPeer conf name) .server, pub)
  | none => (s, savedKey s name)

variable (cfg) in
/-- A remove changes nothing; or it takes the client's block out, and then the live peer and the
files, unless `awg` fails. -/
theorem removePeer_cases (hf : e.FilesOk) (name : Text) (s : Server) :
    (∃ err, removePeer cfg e name s = (.error err, s)) ∨
      ∃ conf, s.conf = some conf ∧
        let (t, pub) := s.unlisted conf name
        ((e.awgError .removePeer = none ∨ pub = none) ∧
            removePeer cfg e name s =
              (.ok ⟨name, pub.isSome || (s.readClientFile name .conf).isSome⟩, (t.dropKey pub).withoutFiles name) ∨
          (e.awgError .removePeer ≠ none ∧ pub ≠ none) ∧ ∃ err, removePeer cfg e name s = (.error err, t)) := by
  rw [removePeer]
  cases hname : validateIdentifier "peer_id".toList name with
  | error err => exact .inl ⟨_, rfl⟩
  | ok name' =>
    obtain rfl := validateIdentifier_eq_ok hname
    rw [Cmd.ofExcept_ok_bind, Cmd.get_bind]
    cases hconf : s.conf with
    | none => exact .inl ⟨_, by rw [readConf, hconf]; rfl⟩
    | some conf =>
      rw [readConf_ok hconf, Cmd.ofExcept_ok_bind]
      refine .inr ⟨conf, rfl, ?_⟩
      rw [Server.unlisted]
      cases hfind : findPeer conf name' with
      | some found =>
        obtain ⟨block, pub⟩ := found
        simp only [Cmd.bind_of_ok (writePrivate_ok (hf _) _ _)]
        by_cases hrem : e.awgError .removePeer = none ∨ pub = none
        · exact .inl ⟨hrem, finishRemove_ok hrem _ _⟩
        · exact .inr ⟨not_or.mp hrem, finishRemove_failed (not_or.mp hrem) _ _⟩
      | none =>
        by_cases hrem : e.awgError .removePeer = none ∨ savedKey s name' = none
        · exact .inl ⟨hrem, finishRemove_ok hrem _ _⟩
        · exact .inr ⟨not_or.mp hrem, finishRemove_failed (not_or.mp hrem) _ _⟩

end AmneziaVpnBot.Vpnctl
