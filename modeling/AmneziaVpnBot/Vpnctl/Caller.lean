import AmneziaVpnBot.Vpnctl.Request

/-! Who may send requests to `vpnctl serve`, and the answer to one connection. A caller that is
not TCP got past the permissions of the socket; a TCP caller must come from a listed address,
send a token with a listed hash and, where tags are required, be a node that has one of them. -/

namespace AmneziaVpnBot.Vpnctl

open Text

/-! ### Addresses -/

/-- An address with the zone of an IPv6 one, if it has one. -/
structure Address where
  ip : Ip
  zone : Option Text
  deriving DecidableEq

def zoneOf (t : Text) : Option Text := if '%' ∈ t then some (t.dropWhile (· ≠ '%')).tail else none

/-- `ipaddress.ip_address` -/
def parseAddress (t : Text) : Option Address :=
  if '/' ∈ t then none
  else (parseV4 t).map (⟨.v4 ·, none⟩) <|> (parseV6 t).map (⟨.v6 ·, zoneOf t⟩)

/-- The IPv4 address that an IPv4-mapped one stands for. -/
def Address.unmapped : Address → Address
  | ⟨.v6 n, zone⟩ => if n / 2 ^ 32 = 0xffff then ⟨.v4 (n % 2 ^ 32), none⟩ else ⟨.v6 n, zone⟩
  | a => a

def Address.text (a : Address) : Text := a.ip.text ++ (a.zone.elim [] fun z => '%' :: z)

example : (parseAddress "::ffff:100.64.0.1".toList).map Address.unmapped = parseAddress "100.64.0.1".toList := by
  decide +kernel

/-- The entries of a list in the settings, without those that are empty. -/
def entries (list : Text) : List Text := ((list.splitOn ',').map strip).filter (· ≠ [])

def allowedClients (cfg : Config) : List Address :=
  ((cfg.get "ALLOWED_CLIENTS").splitOn ',').filterMap fun part => parseAddress (strip part)

/-! ### Tokens -/

/-- `str.lower` as far as it leads to ASCII. -/
def lowerChar (c : Char) : Char :=
  if 'A' ≤ c ∧ c ≤ 'Z' then .ofNat (c.toNat + 32) else if c = '\u212a' then 'k' else c

def lower (t : Text) : Text := t.map lowerChar

def isAscii (t : Text) : Bool := t.all (·.toNat < 128)

def hexdigest (digest : List UInt8) : Text :=
  digest.flatMap fun b => [Nat.digitChar (b.toNat / 16), Nat.digitChar (b.toNat % 16)]

def expectedHashes (cfg : Config) : List Text := (entries (cfg.get "CLIENT_TOKEN_SHA256")).map lower

/-- `none` for a string that has no encoding; what is no string has an empty digest. -/
def tokenDigest (sha256 : List UInt8 → List UInt8) : Option Json → Option Text
  | some (.string token) => (Utf8.encode token).map fun bytes => hexdigest (sha256 bytes)
  | _ => some []

/-! ### Tags -/

/-- How a run of `tailscale whois` ends. -/
inductive Whois
  /-- It cannot be run, takes too long or prints what is no text. -/
  | failed
  | exited (code : ℤ) (stdout stderr : Text)

/-- What a connection meets. -/
structure World where
  env : Env
  now : ℕ
  /-- How deep a request may be nested that `json.loads` reads, and how deep an answer of
  `tailscale whois`: the stack has one call more then. -/
  nesting : ℕ
  whoisNesting : ℕ
  sha256 : List UInt8 → List UInt8
  whois : Text → Whois

/-- The literal of a float that is too small for one, or of 0. -/
def isZero (literal : Text) : Bool :=
  let mantissa := literal.takeWhile fun c => c ≠ 'e' && c ≠ 'E'
  let digits := mantissa.filter Char.isDigit
  let fraction := ((mantissa.dropWhile (· ≠ '.')).filter Char.isDigit).length
  let exponent := (literal.dropWhile fun c => c ≠ 'e' && c ≠ 'E').tail
  let power : ℤ := Nat.ofDigitChars 10 (exponent.filter Char.isDigit) 0
  let power := (if exponent.head? = some '-' then -power else power) - fraction
  -- half of the smallest float is rounded to 0
  !digits.isEmpty && decide (Nat.ofDigitChars 10 digits 0 * 10 ^ power.toNat * 2 ^ 1075 ≤ 10 ^ (-power).toNat)

def isTruthy : Option Json → Bool
  | none | some .null => false
  | some (.bool b) => b
  | some (.number literal) => !isZero literal
  | some (.string s) => !s.isEmpty
  | some (.array items) => !items.isEmpty
  | some (.object members) => !members.isEmpty

def isContainer : Json → Bool
  | .array _ | .object _ => true
  | _ => false

/-- `set(node.get("Tags") or [])` -/
def tagsOf (node : List (Str × Json)) : Except Fault (List Json) :=
  let tags := node.lookup (str "Tags")
  if isTruthy tags then
    match tags with
    | some (.array items) => if items.any isContainer then .error .raised else .ok items
    | some (.object members) => .ok (members.map fun m => .string m.1)
    | some (.string s) => .ok (s.map fun c => .string [c])
    | _ => .error .raised
  else .ok []

/-- The tags in the answer of `tailscale whois`. -/
def nodeTags (limit : ℕ) (stdout : Text) : Except Fault (List Json) :=
  match Json.loads (some limit) stdout with
  | .error .recursion => .error .raised
  | .ok (.object members) =>
    let node := members.lookup (str "Node")
    if isTruthy node then
      match node with
      | some (.object node) => tagsOf node
      | _ => .error (.error .whoisError)
    else .ok []
  | _ => .error (.error .whoisError)

def isString : Json → Bool
  | .string _ => true
  | _ => false

def isNull : Json → Bool
  | .null => true
  | _ => false

/-- `sorted` can put the tags in order: strings, or numbers, or one `None`. -/
def comparable (tags : List Json) : Bool :=
  tags.all isString || tags.all isNull || tags.all fun t => !isString t && !isNull t

/-- Is one of the texts among the tags? -/
def shares (required : List Text) (tags : List Json) : Bool :=
  required.any fun t => tags.any fun tag => match tag with
    | .string s => decide (s = t.map Char.toNat)
    | _ => false

def checkTailscaleTags (w : World) (cfg : Config) (peer : Address) : Except Fault Unit :=
  let required := entries (cfg.get "REQUIRED_TAILSCALE_TAGS")
  if required = [] then .ok ()
  else if canSplit (cfg.get "TAILSCALE_BIN") then
    match w.whois peer.text with
    | .failed => .error (.error .whoisError)
    | .exited code stdout stderr =>
      if code ≠ 0 then
        .error (.error (.whoisFailed (if strip stderr ≠ [] then strip stderr else strip stdout)))
      else do
        let tags ← nodeTags w.whoisNesting stdout
        if shares required tags then .ok ()
        else if comparable tags then .error (.error (.refusedTags peer.text tags required))
        else .error .raised
  else .error (.error .whoisError)

/-! ### The check -/

/-- The token of the request, if it was read. -/
def checkToken (w : World) (cfg : Config) (token : Option Json) : Except Fault Unit :=
  if expectedHashes cfg = [] then
    .error (.error (.refused "CLIENT_TOKEN_SHA256 is not set, so no TCP caller is accepted".toList))
  else match tokenDigest w.sha256 token with
    | none => .error .raised
    | some digest =>
      -- `compare_digest` takes ASCII texts only
      if (expectedHashes cfg).all isAscii then
        if (expectedHashes cfg).contains digest then .ok () else .error
          (.error (.refused "Wrong or missing token".toList))
      else .error .raised

def checkCaller (w : World) (cfg : Config) (caller : Caller) (request : Option Request) : Except Fault Unit :=
  match caller with
  | .stdin _ | .unix _ => .ok ()
  | .tcp _ peername => match peername.bind parseAddress with
    | none => .error (.error (.refused "Cannot tell who is calling".toList))
    | some address =>
      let peer := address.unmapped
      if peer ∈ allowedClients cfg then do
        checkToken w cfg (request.bind (·.token))
        checkTailscaleTags w cfg peer
      else .error (.error (.refused (peer.text ++ " is not in ALLOWED_CLIENTS".toList)))

/-! ### Serving -/

/-- The request that gets through to `handle`. A bad one is reported only to those who may call. -/
def accept (w : World) (cfg : Config) (caller : Caller) : Except Fault Request :=
  match readRequest w.nesting caller with
  | .ok request => do
    checkCaller w cfg caller (some request)
    return request
  | .error (.error bad) => do
    checkCaller w cfg caller none
    .error (.error bad)
  | .error .raised => .error .raised

/-- The object that is sent back. -/
inductive Response
  | result (r : Result)
  | error (e : ServeError)

def Response.exitCode : Response → ℕ
  | .result _ => 0
  | .error e => e.exitCode

/-- What `cmd_serve` makes of the outcome; an exception that it does not catch sends nothing. -/
def respond : Except Fault Result → Option Response
  | .ok r => some (.result r)
  | .error (.error e) => some (.error e)
  | .error .raised => none

/-- The reply to a connection, if there is one, and the server after it. -/
def serve (w : World) (file : Option Text) (caller : Caller) (s : Server) : Option Response × Server :=
  match loadSettings file with
  | .error err => (some (.error (.command err)), s)
  | .ok cfg => match accept w cfg caller with
    | .error fault => (respond (.error fault), s)
    | .ok request =>
      let (outcome, t) := handle cfg w.env w.now request s
      (respond outcome, t)

end AmneziaVpnBot.Vpnctl
