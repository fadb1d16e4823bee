import AmneziaVpnBot.Lib.Json
import AmneziaVpnBot.Vpnctl.Commands

/-! What `vpnctl serve` reads: the settings file, and the one request of a connection, whose
first line is decoded, parsed and checked before any command sees it. -/

namespace AmneziaVpnBot.Vpnctl

open Text

/-! ### Settings -/

/-- `vpnctl.conf` by key, the last assignment first. -/
abbrev Config := List (Text × Text)

def defaults : Config :=
  [("INTERFACE", "awg1"), ("CONF_DIR", "/etc/amnezia/amneziawg"), ("AWG_BIN", "awg"), ("ENDPOINT_HOST", ""),
    ("ENDPOINT_PORT", ""), ("CLIENT_DNS", "1.1.1.1, 9.9.9.9"), ("CLIENT_MTU", "1280"),
    ("CLIENT_ALLOWED_IPS", "0.0.0.0/0, ::/0"), ("PERSISTENT_KEEPALIVE", "25"), ("ALLOWED_CLIENTS", ""),
    ("CLIENT_TOKEN_SHA256", ""), ("REQUIRED_TAILSCALE_TAGS", ""), ("TAILSCALE_BIN", "tailscale")].map fun p =>
    (p.1.toList, p.2.toList)

/-- `cfg[key]`, for a key that has a default. -/
def Config.get (cfg : Config) (key : String) : Text := (cfg.lookup key.toList).getD []

/-- `str.upper` as far as it leads to ASCII: no key has another character. -/
def upperChar (c : Char) : Text :=
  if 'a' ≤ c ∧ c ≤ 'z' then [.ofNat (c.toNat - 32)]
  else match c with
    | 'ı' => "I".toList
    | 'ſ' => "S".toList
    | 'ß' => "SS".toList
    | 'ﬀ' => "FF".toList
    | 'ﬁ' => "FI".toList
    | 'ﬂ' => "FL".toList
    | 'ﬃ' => "FFI".toList
    | 'ﬄ' => "FFL".toList
    | 'ﬅ' | 'ﬆ' => "ST".toList
    | _ => [c]

/-- `value.strip(q)` for one character. -/
def stripQuote (q : Char) (value : Text) : Text := (value.dropWhile (· == q)).rdropWhile (· == q)

/-- What a line of the file assigns, if it is not a comment. -/
def assignment (line : Text) : Option (Text × Text) :=
  let line := strip line
  if line.head? = some '#' ∨ '=' ∉ line then none
  else some ((strip (line.takeWhile (· ≠ '='))).flatMap upperChar,
    stripQuote '\'' (stripQuote '"' (strip (line.dropWhile (· ≠ '=')).tail)))

/-- The file may be missing. -/
def loadSettings (file : Option Text) : Except Error Config :=
  let cfg : Config := (((file.getD []).splitOn '\n').filterMap assignment).reverse ++ defaults
  (validateIdentifier "INTERFACE".toList (cfg.get "INTERFACE")).map fun _ => cfg

/-- The settings of the commands. -/
def Config.settings (cfg : Config) : Settings where
  interface := cfg.get "INTERFACE"
  confDir := cfg.get "CONF_DIR"
  endpointHost := cfg.get "ENDPOINT_HOST"
  endpointPort := cfg.get "ENDPOINT_PORT"
  clientDns := cfg.get "CLIENT_DNS"
  clientMtu := cfg.get "CLIENT_MTU"
  clientAllowedIps := cfg.get "CLIENT_ALLOWED_IPS"
  persistentKeepalive := cfg.get "PERSISTENT_KEEPALIVE"

/-- Where `shlex.split` stands. -/
inductive Shlex
  | plain
  | single
  | double
  | escaped
  | escapedInDouble
  deriving DecidableEq

def Shlex.next (state : Shlex) (c : Char) : Shlex :=
  match state with
  | .plain => if c = '\'' then .single else if c = '"' then .double else if c = '\\' then .escaped else .plain
  | .single => if c = '\'' then .plain else .single
  | .double => if c = '"' then .plain else if c = '\\' then .escapedInDouble else .double
  | .escaped => .plain
  | .escapedInDouble => .double

/-- `shlex.split` raises nothing: every quotation is closed and no backslash is last. -/
def canSplit (t : Text) : Bool := t.foldl Shlex.next .plain = .plain

example : (loadSettings (some "# x\n interface = \"awg0\"\nAWG_BIN=sudo 'awg'\nno line\nINTERFACE='awg2'\n".toList)).map
    (fun cfg => (cfg.get "INTERFACE", cfg.get "AWG_BIN", canSplit (cfg.get "AWG_BIN"))) =
    .ok ("awg2".toList, "sudo 'awg".toList, false) := by
  decide +kernel

/-! ### Errors -/

/-- What a reply may report instead of a result. -/
inductive ServeError
  /-- `InvalidInput` with its message. -/
  | badRequest (message : Text)
  /-- `InvalidInput` whose message shows what came for a command, if anything did. -/
  | unknownCommand (command : Option Json)
  /-- `InvalidInput` for a string that is no text, since it has a lone surrogate. -/
  | badValue (field : Text) (value : Str)
  | refused (message : Text)
  /-- `Refused` with the tags the caller's node has and those of which it needs one. -/
  | refusedTags (peer : Text) (tags : List Json) (required : List Text)
  /-- `tailscale whois` failed, with what it printed. -/
  | whoisFailed (output : Text)
  /-- The caller could not be checked with `tailscale whois`. -/
  | whoisError
  | command (err : Error)

def ServeError.exitCode : ServeError → ℕ
  | .badRequest _ | .unknownCommand _ | .badValue .. => 2
  | .refused _ | .refusedTags .. => 4
  | .whoisFailed _ | .whoisError => 1
  | .command err => err.exitCode

inductive Fault
  | error (e : ServeError)
  /-- An exception that `cmd_serve` does not catch: the process ends without a reply. -/
  | raised

/-! ### Callers -/

/-- What a caller does after its last bytes: it ends its side, or keeps it open and silent. -/
inductive Ending
  | closed
  | stalled
  deriving DecidableEq

/-- The bytes a caller sends over a socket, in the pieces they come in. -/
structure Socket where
  chunks : List (List UInt8)
  ending : Ending
  nonempty : ∀ chunk ∈ chunks, chunk ≠ []

inductive Caller
  | stdin (bytes : List UInt8)
  | unix (socket : Socket)
  /-- `none` when the connection has no peer any more. -/
  | tcp (socket : Socket) (peername : Option Text)

def Caller.sent : Caller → List UInt8
  | .stdin bytes => bytes
  | .unix socket | .tcp socket _ => socket.chunks.flatten

def Caller.isTcp : Caller → Bool
  | .tcp .. => true
  | _ => false

def newline : UInt8 := 10

def firstLine (bytes : List UInt8) : List UInt8 := bytes.takeWhile (· ≠ newline)

def maxRequestBytes : ℕ := 4096

/-- The loop of `read_request` on a socket; `none` when it waits for too long. -/
def recvLoop (ending : Ending) : List UInt8 → List (List UInt8) → Option (List UInt8)
  | raw, [] =>
    if newline ∈ raw ∨ maxRequestBytes < raw.length ∨ ending = .closed then some raw else none
  | raw, chunk :: chunks =>
    if newline ∈ raw ∨ maxRequestBytes < raw.length then some raw
    else recvLoop ending (raw ++ chunk.take (maxRequestBytes + 1 - raw.length)) chunks

/-- What is read of a caller. -/
def Caller.raw : Caller → Option (List UInt8)
  | .stdin bytes => some (bytes.take (maxRequestBytes + 1))
  | .unix socket | .tcp socket _ => recvLoop socket.ending [] socket.chunks

/-! ### Requests -/

/-- An object with no other keys than these, whose `args` is an object. -/
structure Request where
  command : Option Json
  args : List (Str × Json)
  token : Option Json

def str (s : String) : Str := s.toList.map Char.toNat

/-- `set(request) - {"command", "args", "token"}` is empty. -/
def onlyRequestKeys (members : List (Str × Json)) : Bool :=
  members.all fun m => (["command", "args", "token"].map str).contains m.1

def toRequest : Json → Except ServeError Request
  | .object members =>
    match (members.lookup (str "args")).getD (.object []) with
    | .object args =>
      if onlyRequestKeys members then
        .ok ⟨members.lookup (str "command"), args, members.lookup (str "token")⟩
      else .error (.badRequest "Request may only have command, args and token".toList)
    | _ => .error (.badRequest "Request must be an object with an args object".toList)
  | _ => .error (.badRequest "Request must be an object with an args object".toList)

/-- `json.loads` gives up on what is nested deeper than `limit`. -/
def readLine (limit : ℕ) (line : List UInt8) : Except Fault Request :=
  match (Utf8.decode line).map (Json.loads (some limit)) with
  | none | some (.error .value) => .error (.error (.badRequest "Request is not JSON".toList))
  | some (.error .recursion) => .error .raised
  | some (.ok v) => (toRequest v).mapError .error

def readRequest (limit : ℕ) (caller : Caller) : Except Fault Request :=
  match caller.raw with
  | none => .error (.error (.badRequest "Timed out reading the request".toList))
  | some raw =>
    if maxRequestBytes < raw.length then .error (.error (.badRequest "Request too large".toList))
    else readLine limit (firstLine raw)

/-! ### Commands -/

inductive ServeCommand
  | createPeer
  | disablePeer
  | enablePeer
  | removePeer
  | peerStatus
  | getConfig
  deriving DecidableEq

def ServeCommand.all : List ServeCommand :=
  [.createPeer, .disablePeer, .enablePeer, .removePeer, .peerStatus, .getConfig]

def ServeCommand.name : ServeCommand → String
  | .createPeer => "create-peer"
  | .disablePeer => "disable-peer"
  | .enablePeer => "enable-peer"
  | .removePeer => "remove-peer"
  | .peerStatus => "peer-status"
  | .getConfig => "get-config"

/-- The arguments it takes, sorted. -/
def ServeCommand.args : ServeCommand → List String
  | .createPeer => ["label", "subscription_id"]
  | _ => ["peer_id"]

/-- `SERVE_COMMANDS[command]` -/
def serveCommand (command : Str) : Option ServeCommand := ServeCommand.all.find? fun c => command = str c.name

/-- The values, if all of them are strings. -/
def strings (args : List (Str × Json)) : Option (List (Str × Str)) :=
  args.mapM fun m => match m.2 with
    | .string s => some (m.1, s)
    | _ => none

/-- `set(args) == expected` -/
def sameKeys (args : List (Str × Json)) (expected : List String) : Bool :=
  (args.all fun m => m.1 ∈ expected.map str) && expected.all fun k => str k ∈ args.map Prod.fst

/-- The arguments by name, if they are the ones the command takes. -/
def ServeCommand.values (c : ServeCommand) (args : List (Str × Json)) : Option (List (Str × Str)) :=
  if sameKeys args c.args then strings args else none

/-- The text that a string is. -/
def toText (s : Str) : Option Text := s.mapM fun n => if n.isValidChar then some (.ofNat n) else none

inductive Result
  | peer (result : PeerResult)
  | found (result : FoundResult)
  | status (result : Status)

/-- A command and the exceptions that get out of it. -/
def answer {α : Type} (c : Cmd α) (f : α → Result) (s : Server) : Except Fault Result × Server :=
  match c s with
  | (.ok a, t) => (.ok (f a), t)
  | (.error .uncaught, t) => (.error .raised, t)
  | (.error err, t) => (.error (.error (.command err)), t)

/-- A command about one client. -/
def onPeer {α : Type} (c : Text → Cmd α) (f : α → Result) (peerId : Str) (s : Server) : Except Fault Result × Server :=
  match toText peerId with
  | some name => answer (c name) f s
  | none => (.error (.error (.badValue "peer_id".toList peerId)), s)

/-- The id is checked before the label. -/
def onSubscription (cfg : Settings) (e : Env) (subscriptionId label : Str) (s : Server) :
    Except Fault Result × Server :=
  match toText subscriptionId with
  | none => (.error (.error (.badValue "UUID".toList subscriptionId)), s)
  | some id => match toText label with
    | some name => answer (Vpnctl.createPeer cfg e id name) .peer s
    | none => match validateUuid id with
      | .error err => (.error (.error (.command err)), s)
      | .ok _ => (.error (.error (.badValue "label".toList label)), s)

def ServeCommand.run (c : ServeCommand) (cfg : Settings) (e : Env) (now : ℕ) (args : List (Str × Str)) :
    Server → Except Fault Result × Server :=
  let arg key := (args.lookup (str key)).getD []
  match c with
  | .createPeer => onSubscription cfg e (arg "subscription_id") (arg "label")
  | .disablePeer => onPeer (Vpnctl.disablePeer cfg e) .found (arg "peer_id")
  | .enablePeer => onPeer (Vpnctl.enablePeer cfg e) .found (arg "peer_id")
  | .removePeer => onPeer (Vpnctl.removePeer cfg e) .found (arg "peer_id")
  | .peerStatus => onPeer (Vpnctl.peerStatus cfg e now) .status (arg "peer_id")
  | .getConfig => onPeer Vpnctl.getConfig .peer (arg "peer_id")

def handle (cfg : Config) (e : Env) (now : ℕ) (request : Request) (s : Server) : Except Fault Result × Server :=
  match request.command with
  -- a list or a dict cannot be looked up in a dict
  | some (.array _) | some (.object _) => (.error .raised, s)
  | some (.string command) => match serveCommand command with
    | none => (.error (.error (.unknownCommand request.command)), s)
    | some c => match c.values request.args with
      | none =>
        (.error (.error (.badRequest (c.name.toList ++ " takes exactly: ".toList ++
          List.intercalate ", ".toList (c.args.map String.toList)))), s)
      | some args =>
        if canSplit (cfg.get "AWG_BIN") then c.run cfg.settings e now args s else (.error .raised, s)
  | command => (.error (.error (.unknownCommand command)), s)

end AmneziaVpnBot.Vpnctl
