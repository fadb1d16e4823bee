import AmneziaVpnBot.Codec.VpnUrl
import AmneziaVpnBot.Lib.Number
import AmneziaVpnBot.Lib.Uuid
import Mathlib.Data.List.Infix

/-! The bot's client of `vpnctl`: what it makes of the bytes with which a VPN host answers `create-peer`.
The host may be in anyone's hands, so a reply is either refused with an error that the worker knows or
yields a peer whose name, file and key the bot can send on. Three kinds of reply get past that. -/

namespace AmneziaVpnBot.Provision

open Codec (strip)

def text (s : String) : Str := s.toList.map Char.toNat

/-- `str(n)` -/
def intText (n : ℤ) : Str := text (toString n)

/-- What of the interpreter a reply meets. -/
structure Interpreter where
  /-- The nesting beyond which `json.loads` gives up. -/
  nesting : ℕ
  /-- The nesting beyond which `str` gives up. -/
  reprNesting : ℕ
  /-- `str` of a value that is not a string. -/
  repr : Json → Str

inductive Why
  | tooLarge
  | malformed
  | failed (message : Str)
  deriving DecidableEq

/-- The two errors of the provisioner and those of Python. -/
inductive Raised
  | retryable (why : Why)
  | permanent (message : Str)
  /-- `ValueError`, and `UnicodeDecodeError` and `JSONDecodeError`, which are among them. -/
  | value
  | key
  | type
  | overflow
  | recursion
  deriving DecidableEq

/-! ### Conversions -/

def isIdentifierChar (c : ℕ) : Bool :=
  (65 ≤ c && c ≤ 90) || (97 ≤ c && c ≤ 122) || (48 ≤ c && c ≤ 57) || c == 95 || c == 45

/-- 1 to 64 characters from `A-Z a-z 0-9 _ -`. -/
def isIdentifier (s : Str) : Bool := 1 ≤ s.length && s.length ≤ 64 && s.all isIdentifierChar

def endsInNewline (s : Str) : Bool := s.getLast? == some 10

/-- `IDENTIFIER_REGEX.match(s)`; `$` also matches before a newline at the end. -/
def matchesIdentifier (s : Str) : Bool := isIdentifier (if endsInNewline s then s.dropLast else s)

def sanitizeIdentifier : Json → Except Raised Str
  | .string s => if matchesIdentifier s then .ok s else .error .value
  | _ => .error .value

/-- `int(value)` -/
def toInt : Json → Except Raised ℤ
  | .bool b => .ok (if b then 1 else 0)
  | .number literal => match Json.readNumber literal with
    | .int n => .ok n
    | .float (.finite negative magnitude) => .ok (Float64.truncate negative magnitude)
    | .float (.infinite _) => .error .overflow
    | .float .nan => .error .value
  | .string s => (Json.readInt s).elim (.error .value) .ok
  | _ => .error .type

/-- `bool(value)` -/
def truthy : Json → Bool
  | .null => false
  | .bool b => b
  | .number literal => match Json.readNumber literal with
    | .int n => n ≠ 0
    | .float (.finite _ magnitude) => magnitude ≠ 0
    | .float _ => true
  | .string s => !s.isEmpty
  | .array items => !items.isEmpty
  | .object members => !members.isEmpty

mutual

/-- How deeply a value is nested. -/
def depth : Json → ℕ
  | .array items => depthItems items + 1
  | .object members => depthMembers members + 1
  | _ => 0

def depthItems : List Json → ℕ
  | [] => 0
  | v :: items => max (depth v) (depthItems items)

def depthMembers : List (Str × Json) → ℕ
  | [] => 0
  | m :: members => max (depthMember m) (depthMembers members)

def depthMember : Str × Json → ℕ
  | (_, v) => depth v

end

/-- `str(value)` -/
def Interpreter.str (py : Interpreter) : Json → Except Raised Str
  | .string s => .ok s
  | v => if py.reprNesting < depth v then .error .recursion else .ok (py.repr v)

/-- `base64.b64decode(value, validate=True)` -/
def b64decode : Json → Except Raised (List UInt8)
  | .string s => match Codec.asciiEncode s with
    | .ok data => (Base64.decode true data).elim (.error .value) .ok
    | .error _ => .error .value
  | _ => .error .type

/-- `data[name]` -/
def item (data : List (Str × Json)) (name : String) : Except Raised Json :=
  (data.lookup (text name)).elim (.error .key) .ok

/-! ### Calls -/

def maxResponseBytes : ℕ := 1024 * 1024

structure Reply where
  exitCode : ℤ
  result : List (Str × Json)
  error : Str

/-- `str(response.get("error") or "")` -/
def errorText (py : Interpreter) (response : List (Str × Json)) : Except Raised Str :=
  let error := (response.lookup (text "error")).getD .null
  if truthy error then py.str error else .ok []

def readResponse (py : Interpreter) : Json → Except Raised Reply
  | .object response => do
    let exitCode ← toInt (← item response "exit_code")
    let error ← errorText py response
    match (response.lookup (text "result")).getD (.object []) with
    | .object result => return ⟨exitCode, result, error⟩
    | _ => throw .value
  | _ => .error .type

def readReply (py : Interpreter) (raw : List UInt8) : Except Raised Reply :=
  match (Utf8.decode raw).map (Json.loads (some py.nesting)) with
  | none | some (.error .value) => .error .value
  | some (.error .recursion) => .error .recursion
  | some (.ok response) => readResponse py response

/-- `except (UnicodeDecodeError, ValueError, KeyError, TypeError)` -/
def malformed : Raised → Raised
  | .value | .key | .type => .retryable .malformed
  | raised => raised

def call (py : Interpreter) (raw : List UInt8) : Except Raised Reply :=
  if maxResponseBytes < raw.length then .error (.retryable .tooLarge) else (readReply py raw).mapError malformed

/-- `str.lower` as far as it leads to ASCII. -/
def lower (s : Str) : Str := s.map fun c => if 65 ≤ c ∧ c ≤ 90 then c + 32 else c

def classifyFailure (exitCode : ℤ) (error : Str) : Raised :=
  let errMsg := if strip error = [] then text "vpnctl failed with exit code " ++ intText exitCode else strip error
  if exitCode ∈ [2, 3, 4] ∨ text "already exists" <:+: lower errMsg then .permanent errMsg
  else .retryable (.failed errMsg)

def runChecked (py : Interpreter) (raw : List UInt8) : Except Raised (List (Str × Json)) := do
  let reply ← call py raw
  if reply.exitCode ≠ 0 then throw (classifyFailure reply.exitCode reply.error)
  return reply.result

/-! ### Creating a peer -/

structure ProvisionedPeer where
  externalId : Str
  label : Str
  configFilename : Str
  configBytes : List UInt8
  vpnUrl : Option Str
  deriving DecidableEq

/-- `encode_vpn_url(config_bytes.decode("utf-8")) if config_bytes else None`;
it matters to no one which error this raises. -/
def vpnUrl (z : Zlib) (configBytes : List UInt8) : Except Raised (Option Str) :=
  if configBytes = [] then .ok none
  else (Codec.utf8Decode configBytes >>= AmneziaCodec.encodeVpnUrl z).map some |>.mapError fun _ => .value

def provisionedPeer (z : Zlib) (safeLabel : Str) (data : List (Str × Json)) : Except Raised ProvisionedPeer := do
  let peerId ← sanitizeIdentifier (← item data "peer_id")
  let label ← sanitizeIdentifier ((data.lookup (text "label")).getD (.string safeLabel))
  let filename := label ++ text ".conf"
  let configBytes ← b64decode (← item data "config_b64")
  return ⟨peerId, label, filename, configBytes, ← vpnUrl z configBytes⟩

/-- The label asked for. -/
def requestLabel (telegramUserId : ℤ) (subscriptionId : Uuid) (slug : Str) : Except Raised Str :=
  let safeSubId := subscriptionId.text.map Char.toNat
  sanitizeIdentifier
    (.string (text "user_" ++ intText telegramUserId ++ text "_" ++ safeSubId.take 8 ++ text "_" ++ slug))

/-- `create_peer`, when `raw` is what the host answers. -/
def createPeer (py : Interpreter) (z : Zlib) (telegramUserId : ℤ) (subscriptionId : Uuid) (slug : Str)
    (raw : List UInt8) : Except Raised ProvisionedPeer := do
  let safeLabel ← requestLabel telegramUserId subscriptionId slug
  let data ← runChecked py raw
  (provisionedPeer z safeLabel data).mapError fun _ => .retryable .malformed

/-! ### The status of a peer -/

/-- What of the interpreter a status meets, with times of type `δ`. -/
structure StatusReader (δ : Type) where
  /-- `datetime.fromtimestamp(ts, tz=timezone.utc)` -/
  fromtimestamp : ℕ → δ
  /-- `datetime.fromisoformat`; `none` where it raises. -/
  fromisoformat : Str → Option δ
  /-- `json.dumps`; `none` where the value is nested too deeply. -/
  dumps : Json → Option Str

/-- `exists` and `is_active` are whatever the host says. -/
structure PeerStatus (δ : Type) where
  exists' : Json
  isActive : Json
  lastHandshake : Option δ := none
  bytesReceived : ℤ := 0
  bytesSent : ℤ := 0
  rawStatus : Option Str

/-- The status of a call that failed in any way. -/
def missingStatus (δ : Type) (error : Str) : PeerStatus δ where
  exists' := .bool false
  isActive := .bool false
  rawStatus := if strip error = [] then none else some (strip error)

/-- `datetime.fromisoformat(data["last_handshake"]) if data.get("last_handshake") else None`; `none` where it raises. -/
def readHandshake {δ : Type} (reader : StatusReader δ) (data : List (Str × Json)) : Option (Option δ) :=
  let value := (data.lookup (text "last_handshake")).getD .null
  if truthy value then
    match value with
    | .string s => (reader.fromisoformat s).map some
    | _ => none
  else some none

def readStatus {δ : Type} (reader : StatusReader δ) (data : List (Str × Json)) (raw : Str) : Option (PeerStatus δ) := do
  let lastHandshake ← readHandshake reader data
  let bytesReceived ← (toInt ((data.lookup (text "bytes_received")).getD (.number "0".toList))).toOption
  let bytesSent ← (toInt ((data.lookup (text "bytes_sent")).getD (.number "0".toList))).toOption
  return ⟨(data.lookup (text "exists")).getD (.bool true), (data.lookup (text "is_active")).getD (.bool false),
    lastHandshake, bytesReceived, bytesSent, some raw⟩

/-- `get_peer_status`, when `raw` is what the host answers. -/
def getPeerStatus {δ : Type} (py : Interpreter) (reader : StatusReader δ) (raw : List UInt8) :
    Except Raised (PeerStatus δ) := do
  let reply ← call py raw
  if reply.exitCode ≠ 0 then return missingStatus δ reply.error
  match reader.dumps (.object reply.result) with
  | none => throw .recursion
  | some raw =>
    return (readStatus reader reply.result raw).getD
      { exists' := .bool true, isActive := .bool false, rawStatus := some raw }

end AmneziaVpnBot.Provision
