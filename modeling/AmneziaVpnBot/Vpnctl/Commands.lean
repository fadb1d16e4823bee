import AmneziaVpnBot.Vpnctl.Server

/-! The commands of `vpnctl` that a bot sends: create, disable, enable and remove a client,
report on it and hand out its config. Each runs under the server's lock, so a run of the
server is a list of commands, each with what it met outside. -/

namespace AmneziaVpnBot.Vpnctl

open Text

/-- The answer that carries a client config; `config_b64` and `vpn_url` encode `config`. -/
structure PeerResult where
  peerId : Text
  label : Text
  filename : Text
  config : Text
  address : Option Text
  existing : Option Bool
  deriving DecidableEq

def peerResult (name config : Text) (address : Option Text) (existing : Option Bool) : PeerResult :=
  ⟨name, name, name ++ Ext.conf.text, config, address, existing⟩

/-! ### Creating -/

/-- The keys of `OBFUSCATION_LINE`. -/
def obfuscationKeys : List Text :=
  ["Jc", "Jmin", "Jmax", "S1", "S2", "S3", "S4", "H1", "H2", "H3", "H4", "I1", "I2", "I3", "I4", "I5",
    "HeaderProtectionKey", "ContentPaddingAddition", "RekeyAfterTime", "RekeyTimeout", "RejectAfterTime",
    "KeepaliveTimeout", "MaxHandshakeAttempts", "RandomTrailers", "DisableCookies"].map String.toList

def isObfuscation (line : Text) : Bool :=
  obfuscationKeys.any fun key =>
    (afterPrefix key line).any fun rest => (rest.dropWhile (· = ' ')).head? = some '='

def setting (key value : Text) : Text := key ++ " = ".toList ++ value ++ ['\n']

def peerBlock (name pub psk allowedIps : Text) : Text :=
  "[Peer]\n# ".toList ++ name ++ ['\n'] ++ setting publicKey pub ++ setting presharedKey psk ++
    setting allowedIpsKey allowedIps

def clientConfig (cfg : Settings) (iface : List Text) (priv psk serverPub endpoint allowedIps : Text) : Text :=
  "[Interface]\n".toList ++ setting "PrivateKey".toList priv ++ setting "Address".toList allowedIps ++
    setting "DNS".toList cfg.clientDns ++ setting "MTU".toList cfg.clientMtu ++
    List.intercalate ['\n'] ((iface.map strip).filter isObfuscation) ++ "\n\n[Peer]\n".toList ++
    setting publicKey serverPub ++ setting presharedKey psk ++
    setting allowedIpsKey cfg.clientAllowedIps ++ setting "Endpoint".toList endpoint ++
    setting "PersistentKeepalive".toList cfg.persistentKeepalive

/-- The free address of `create-peer`: its interface and the address it takes. -/
def freeAddress (s : Server) (conf address : Text) : Except Error Ip :=
  match parseInterface (strip ((address.splitOn ',').headD [])) with
  | none => .error .uncaught
  | some serverIf =>
    let used := serverIf.ip :: usedAddresses s conf true
    match firstFree (fun n => used.contains (serverIf.ip.with n)) serverIf.hosts.1 serverIf.hosts.2 with
    | none => .error (.vpnctlError ("Subnet ".toList ++ serverIf.networkText ++ " is full".toList))
    | some n => .ok (serverIf.ip.with n)

def endpointHost (cfg : Settings) (e : Env) : Except Error Text :=
  let host := if cfg.endpointHost = [] then e.publicIp else some cfg.endpointHost
  match host with
  | none => .error (.vpnctlError "Could not detect the public IP; set ENDPOINT_HOST in vpnctl.conf".toList)
  | some host => .ok (if ':' ∈ host ∧ host.head? ≠ some '[' then '[' :: host ++ [']'] else host)

/-- What `create-peer` has worked out before it changes anything. -/
structure Plan where
  pub : Text
  psk : Text
  allowedIps : Text
  conf : Text
  clientConf : Text

/-- What `create-peer` reads in the server config: address, port and private key. -/
def interfaceSettings (cfg : Settings) (conf : Text) : Except Error (List Text × Text × Text × Text) :=
  match interfaceLines conf with
  | none => .error (.vpnctlError "No [Interface] section in server config".toList)
  | some iface =>
    let port := if cfg.endpointPort = [] then getValue iface "ListenPort".toList else some cfg.endpointPort
    match getValue iface "Address".toList, port, getValue iface "PrivateKey".toList with
    | some address, some port, some serverPriv => .ok (iface, address, port, serverPriv)
    | _, _, _ => .error (.vpnctlError "Server [Interface] needs Address, ListenPort and PrivateKey".toList)

def planCreate (cfg : Settings) (e : Env) (s : Server) : Except Error Plan := do
  let conf ← readConf cfg s
  let (iface, address, port, serverPriv) ← interfaceSettings cfg conf
  let clientIp ← freeAddress s conf address
  let allowedIps := clientIp.text ++ "/32".toList
  let priv ← awgRun e .genkey "genkey".toList e.genkey
  let pub ← awgRun e .pubkey "pubkey".toList (e.pubkey (priv ++ ['\n']))
  let psk ← awgRun e .genpsk "genpsk".toList e.genpsk
  let serverPub ← awgRun e .serverPubkey "pubkey".toList (e.pubkey (serverPriv ++ ['\n']))
  let host ← endpointHost cfg e
  return ⟨pub, psk, allowedIps, conf,
    clientConfig cfg iface priv psk serverPub (host ++ ':' :: port) allowedIps⟩

/-- The live peer first, then the saved block, the server config and the client's config. -/
def applyPlan (cfg : Settings) (e : Env) (name : Text) (p : Plan) : Cmd PeerResult := do
  awgSetPeer cfg e (some p.pub) (some p.psk) (some p.allowedIps)
  let block := peerBlock name p.pub p.psk p.allowedIps
  Cmd.onError (do
      writePrivate cfg e (.client name .peer) block
      writePrivate cfg e .server (addBlock p.conf block)
      writePrivate cfg e (.client name .conf) p.clientConf)
    (awgRemovePeer cfg e p.pub)
  return peerResult name p.clientConf (some p.allowedIps) (some false)

def createPeer (cfg : Settings) (e : Env) (subscriptionId label : Text) : Cmd PeerResult := do
  Cmd.ofExcept (validateUuid subscriptionId)
  let name ← Cmd.ofExcept (validateIdentifier "label".toList label)
  let s ← Cmd.get
  match s.readClientFile name .conf with
  | some existing => return peerResult name existing none (some true)
  | none => do
    let p ← Cmd.ofExcept (planCreate cfg e s)
    applyPlan cfg e name p

/-! ### Turning off and on -/

structure FoundResult where
  peerId : Text
  found : Bool
  deriving DecidableEq

/-- `if pub: srv.awg_remove_peer(pub)` -/
def removeKey (cfg : Settings) (e : Env) : Option Text → Cmd Unit
  | some pub => awgRemovePeer cfg e pub
  | none => pure ()

/-- The block as it is saved for a client of the shell script, which has no saved block yet. -/
def saveBlock (cfg : Settings) (e : Env) (name block : Text) : Cmd Unit := do
  let s ← Cmd.get
  if (s.readClientFile name .peer).isNone then
    writePrivate cfg e (.client name .peer) (rstripNl block ++ ['\n'])
  else pure ()

def disablePeer (cfg : Settings) (e : Env) (peerId : Text) : Cmd FoundResult := do
  let name ← Cmd.ofExcept (validateIdentifier "peer_id".toList peerId)
  let s ← Cmd.get
  let conf ← Cmd.ofExcept (readConf cfg s)
  match findPeer conf name with
  | none => return ⟨name, (s.readClientFile name .peer).isSome⟩
  | some (block, pub) => do
    saveBlock cfg e name block
    writePrivate cfg e .server (withoutPeer conf name)
    removeKey cfg e pub
    return ⟨name, true⟩

/-- The lines of a saved block, without their ends. -/
def savedLines (block : Text) : List Text := (splitlines block).map chomp

/-- The address `enable-peer` gives back, if it still may. -/
def checkAddress (s : Server) (conf name block : Text) : Except Error Unit :=
  match getValue (savedLines block) allowedIpsKey with
  | none => .error .uncaught
  | some value => match parseInterface (strip ((value.splitOn ',').headD [])) with
    | none => .error .uncaught
    | some i =>
      if i.ip ∈ usedAddresses s conf false then
        .error (.vpnctlError (i.ip.text ++ " is now used by another peer; remove ".toList ++ name ++
          " and create a new one".toList))
      else .ok ()

def setPeerOf (cfg : Settings) (e : Env) (block : Text) : Cmd Unit :=
  awgSetPeer cfg e (getValue (savedLines block) publicKey) (getValue (savedLines block) presharedKey)
    (getValue (savedLines block) allowedIpsKey)

def enablePeer (cfg : Settings) (e : Env) (peerId : Text) : Cmd FoundResult := do
  let name ← Cmd.ofExcept (validateIdentifier "peer_id".toList peerId)
  let s ← Cmd.get
  let conf ← Cmd.ofExcept (readConf cfg s)
  match findPeer conf name with
  | some (block, _) => do
    setPeerOf cfg e block
    return ⟨name, true⟩
  | none => match s.readClientFile name .peer with
    | none => Cmd.throw (.notFound ("No client named ".toList ++ name))
    | some block => do
      Cmd.ofExcept (checkAddress s conf name block)
      writePrivate cfg e .server (addBlock conf (rstripNl block ++ ['\n']))
      setPeerOf cfg e block
      return ⟨name, true⟩

/-! ### Removing -/

/-- The public key in the client's saved block; an empty file counts as none. -/
def savedKey (s : Server) (name : Text) : Option Text :=
  match s.readClientFile name .peer with
  | some saved => if saved = [] then none else getValue (savedLines saved) publicKey
  | none => none

def finishRemove (cfg : Settings) (e : Env) (name : Text) (pub : Option Text) : Cmd FoundResult := do
  removeKey cfg e pub
  let s ← Cmd.get
  let found := pub.isSome || (s.readClientFile name .conf).isSome
  Cmd.modify fun s => (s.removeClientFile name .conf).removeClientFile name .peer
  return ⟨name, found⟩

def removePeer (cfg : Settings) (e : Env) (peerId : Text) : Cmd FoundResult := do
  let name ← Cmd.ofExcept (validateIdentifier "peer_id".toList peerId)
  let s ← Cmd.get
  let conf ← Cmd.ofExcept (readConf cfg s)
  match findPeer conf name with
  | some (_, pub) => do
    writePrivate cfg e .server (withoutPeer conf name)
    finishRemove cfg e name pub
  | none => finishRemove cfg e name (savedKey s name)

/-! ### Reading -/

structure Status where
  peerId : Text
  exists' : Bool
  enabled : Bool
  isActive : Bool := false
  lastHandshake : Option ℕ := none
  bytesReceived : ℕ := 0
  bytesSent : ℕ := 0
  /-- Only reported for an enabled client. -/
  live : Option Bool := none
  deriving DecidableEq

def activeHandshakeSeconds : ℕ := 180

def peerStatus (cfg : Settings) (e : Env) (now : ℕ) (peerId : Text) : Cmd Status := do
  let name ← Cmd.ofExcept (validateIdentifier "peer_id".toList peerId)
  let s ← Cmd.get
  let conf ← Cmd.ofExcept (readConf cfg s)
  let block := findPeer conf name
  let pub := match block.bind Prod.snd with
    | some pub => some pub
    | none => savedKey s name
  match pub with
  | none => return { peerId := name, exists' := false, enabled := block.isSome }
  | some pub =>
    if block.isNone then return { peerId := name, exists' := true, enabled := false } else do
    let _ ← Cmd.ofExcept (awgRun e .showHandshakes ("show ".toList ++ cfg.interface) [])
    let _ ← Cmd.ofExcept (awgRun e .showTransfer ("show ".toList ++ cfg.interface) [])
    let peer := s.live pub
    let ts := (peer.map (·.latestHandshake)).getD 0
    return {
      peerId := name
      exists' := true
      enabled := true
      isActive := 0 < ts && now < ts + activeHandshakeSeconds
      lastHandshake := if 0 < ts then some ts else none
      bytesReceived := (peer.map (·.rx)).getD 0
      bytesSent := (peer.map (·.tx)).getD 0
      live := some peer.isSome }

def getConfig (peerId : Text) : Cmd PeerResult := do
  let name ← Cmd.ofExcept (validateIdentifier "peer_id".toList peerId)
  let s ← Cmd.get
  match s.readClientFile name .conf with
  | some text => return peerResult name text none none
  | none => Cmd.throw (.notFound ("No client config for ".toList ++ name))

/-! ### Runs -/

inductive Command
  | create (subscriptionId label : Text)
  | disable (peerId : Text)
  | enable (peerId : Text)
  | remove (peerId : Text)

inductive Reply
  | peer (result : PeerResult)
  | found (result : FoundResult)
  deriving DecidableEq

def Command.exec (cfg : Settings) (e : Env) : Command → Cmd Reply
  | .create subscriptionId label => do return .peer (← createPeer cfg e subscriptionId label)
  | .disable peerId => do return .found (← disablePeer cfg e peerId)
  | .enable peerId => do return .found (← enablePeer cfg e peerId)
  | .remove peerId => do return .found (← removePeer cfg e peerId)

/-- The name the command is about. -/
def Command.name : Command → Text
  | .create _ name | .disable name | .enable name | .remove name => name

/-- A command and what it meets; it may fail, and the run goes on. -/
def step (cfg : Settings) (s : Server) (a : Command × Env) : Option Server := some (a.1.exec cfg a.2 s).2

/-! ### A small server to run -/

def smallSettings : Settings := { endpointHost := "vpn.example.org".toList }

/-- A server that is just set up, with room for five clients. -/
def smallServer : Server where
  conf := some "[Interface]\nAddress = 10.0.0.1/29\nListenPort = 51820\nPrivateKey = c2VydmVy\n".toList
  clients := ∅
  live := fun _ => none

/-- Nothing fails; a public key is its private key with a mark in front. -/
def smallEnv (genkey : Text) : Env where
  genkey := genkey
  genpsk := "cHNr".toList
  pubkey := fun key => '+' :: key
  publicIp := none
  awgError := fun _ => none
  replaceFails := fun _ => false

/-- The same, but that call of `awg` fails. -/
def smallEnvDown (genkey : Text) (call : AwgCall) : Env :=
  { smallEnv genkey with awgError := fun c => if c = call then some "No such device".toList else none }

def smallId : Text := "3f2b8c1e-0000-4000-8000-000000000001".toList

end AmneziaVpnBot.Vpnctl
