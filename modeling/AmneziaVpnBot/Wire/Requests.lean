import AmneziaVpnBot.Lib.Dumps
import AmneziaVpnBot.Provision.Client
import AmneziaVpnBot.Vpnctl.Replies

/-! The requests of the bot on their way to `vpnctl`. Each call of the provisioner is one line of JSON, with
the token where the host is another machine. However the line is cut into packets, a `vpnctl` that lets the
caller in runs the command of the call on just its arguments. -/

namespace AmneziaVpnBot.Provision

/-! ### What the bot sends -/

/-- A row of `vpn_servers`, as far as a request depends on it. -/
structure Target where
  host : Str
  slug : Str

/-- `LOCAL_HOSTS` -/
def localHosts : List Str := ["", "localhost", "127.0.0.1", "::1"].map text

/-- `is_local_host` -/
def isLocalHost (host : Str) : Bool := localHosts.contains (lower (Codec.strip host))

/-- The methods of `VpnctlProvisioner`. -/
inductive Call
  | createPeer (telegramUserId : ℤ) (subscriptionId : Uuid)
  | disablePeer (peerExternalId : Str)
  | enablePeer (peerExternalId : Str)
  | removePeer (peerExternalId : Str)
  | getPeerStatus (peerExternalId : Str)
  | getPeerConfig (peerExternalId : Str)

def Call.command : Call → String
  | .createPeer .. => "create-peer"
  | .disablePeer _ => "disable-peer"
  | .enablePeer _ => "enable-peer"
  | .removePeer _ => "remove-peer"
  | .getPeerStatus _ => "peer-status"
  | .getPeerConfig _ => "get-config"

/-- The keyword arguments of `_call`; a name that is no identifier is not sent. -/
def Call.args (slug : Str) : Call → Except Raised (List (Str × Str))
  | .createPeer telegramUserId subscriptionId => do
    let label ← requestLabel telegramUserId subscriptionId slug
    return [(text "subscription_id", subscriptionId.text.map Char.toNat), (text "label", label)]
  | .disablePeer peerExternalId | .enablePeer peerExternalId | .removePeer peerExternalId
  | .getPeerStatus peerExternalId | .getPeerConfig peerExternalId => do
    return [(text "peer_id", ← sanitizeIdentifier (.string peerExternalId))]

/-- The token goes to other machines only. -/
def sentToken (target : Target) (token : Str) : Option Str :=
  if !isLocalHost target.host && !token.isEmpty then some token else none

/-- The arguments as a dict. -/
def dict (args : List (Str × Str)) : List (Str × Json) := args.map fun a => (a.1, .string a.2)

/-- `body` of `_call` -/
def body (target : Target) (token : Str) (command : String) (args : List (Str × Str)) : Json :=
  .object ([(text "command", .string (text command)), (text "args", .object (dict args))] ++
    (sentToken target token).toList.map fun token => (text "token", .string token))

/-- `(json.dumps(body) + "\n").encode("utf-8")` -/
def requestBytes (target : Target) (token : Str) (call : Call) : Except Raised (List UInt8) := do
  let args ← call.args target.slug
  return Utf8.encodeText (Json.dumps (body target token call.command args) ++ ['\n'])

/-! ### Its arguments -/

theorem lt_of_isIdentifierChar {c : ℕ} (h : isIdentifierChar c = true) : c < 0x80 := by
  simp only [isIdentifierChar, Bool.or_eq_true, Bool.and_eq_true, decide_eq_true_eq, beq_iff_eq] at h
  omega

/-- A name that may be sent is ASCII. -/
theorem lt_of_matchesIdentifier {s : Str} (h : matchesIdentifier s = true) : ∀ c ∈ s, c < 0x80 := by
  unfold matchesIdentifier at h
  have hall : ∀ t : Str, isIdentifier t = true → ∀ c ∈ t, c < 0x80 := by
    intro t ht c hc
    rw [isIdentifier, Bool.and_eq_true, List.all_eq_true] at ht
    exact lt_of_isIdentifierChar (ht.2 c hc)
  split at h
  next hend =>
    rw [endsInNewline, beq_iff_eq] at hend
    rw [← List.dropLast_append_getLast? 10 hend]
    simp only [List.forall_mem_append, List.forall_mem_singleton]
    exact ⟨hall _ h, by decide⟩
  next => exact hall s h

theorem plainMembers_dict {args : List (Str × Str)}
    (h : ∀ a ∈ args, Json.isSeparate a.1 = true ∧ Json.isSeparate a.2 = true) :
    Json.plainMembers (dict args) = true := by
  induction args with
  | nil => rfl
  | cons a args ih =>
    rw [List.forall_mem_cons] at h
    rw [dict, List.map_cons, Json.plainMembers, Json.plainMember, Json.isPlain, h.1.1, h.1.2]
    exact ih h.2

theorem sanitizeIdentifier_string {s t : Str} (h : sanitizeIdentifier (.string s) = .ok t) :
    t = s ∧ matchesIdentifier t = true := by
  rw [sanitizeIdentifier] at h
  split at h
  · obtain rfl := Except.ok.inj h
    exact ⟨rfl, ‹_›⟩
  · cases h

/-- The arguments are one name, or an id and a name. -/
inductive Call.Takes : Call → List (Str × Str) → Prop
  | create {telegramUserId : ℤ} {id : Uuid} {label : Str} (h : matchesIdentifier label = true) :
    Takes (.createPeer telegramUserId id) [(text "subscription_id", id.text.map Char.toNat), (text "label", label)]
  | disable {peer : Str} (h : matchesIdentifier peer = true) : Takes (.disablePeer peer) [(text "peer_id", peer)]
  | enable {peer : Str} (h : matchesIdentifier peer = true) : Takes (.enablePeer peer) [(text "peer_id", peer)]
  | remove {peer : Str} (h : matchesIdentifier peer = true) : Takes (.removePeer peer) [(text "peer_id", peer)]
  | status {peer : Str} (h : matchesIdentifier peer = true) : Takes (.getPeerStatus peer) [(text "peer_id", peer)]
  | config {peer : Str} (h : matchesIdentifier peer = true) : Takes (.getPeerConfig peer) [(text "peer_id", peer)]

theorem Call.takes_of_args {slug : Str} {call : Call} {args : List (Str × Str)} (h : call.args slug = .ok args) :
    call.Takes args := by
  cases call with
  | createPeer telegramUserId id =>
    obtain ⟨label, hlabel, h⟩ := Except.bind_eq_ok.mp h
    obtain rfl := Except.ok.inj h
    exact .create (sanitizeIdentifier_string hlabel).2
  | disablePeer peer | enablePeer peer | removePeer peer | getPeerStatus peer | getPeerConfig peer =>
    obtain ⟨name, hname, h⟩ := Except.bind_eq_ok.mp h
    obtain rfl := Except.ok.inj h
    obtain ⟨rfl, hmatch⟩ := sanitizeIdentifier_string hname
    constructor
    exact hmatch

theorem isSeparate_of_matches {s : Str} (h : matchesIdentifier s = true) : Json.isSeparate s = true :=
  Json.isSeparate_of_lt fun c hc => (lt_of_matchesIdentifier h c hc).trans (by decide)

theorem isSeparate_text (s : String) : Json.isSeparate (text s) = true := Json.isSeparate_text _

/-! ### The line -/

theorem isPlain_dict {args : List (Str × Str)} (hkeys : (args.map Prod.fst).Nodup)
    (h : ∀ a ∈ args, Json.isSeparate a.1 = true ∧ Json.isSeparate a.2 = true) :
    Json.isPlain (.object (dict args)) = true := by
  have hfst : (dict args).map Prod.fst = args.map Prod.fst := by simp [dict]
  rw [Json.isPlain, hfst, decide_eq_true hkeys, plainMembers_dict h]
  rfl

section Body

variable {call : Call} {args : List (Str × Str)}

theorem Call.Takes.plain (h : call.Takes args) : Json.isPlain (.object (dict args)) = true := by
  have hname := isSeparate_text "peer_id"
  have hid := isSeparate_text "subscription_id"
  have hlabel := isSeparate_text "label"
  cases h with
  | create h =>
    have hdistinct : [text "subscription_id", text "label"].Nodup := by decide
    exact isPlain_dict hdistinct (by simp [hid, hlabel, Json.isSeparate_text, isSeparate_of_matches h])
  | disable h | enable h | remove h | status h | config h =>
    exact isPlain_dict (List.nodup_singleton _) (by simp [hname, isSeparate_of_matches h])

theorem height_dict (args : List (Str × Str)) : Json.height (.object (dict args)) = 1 := by
  have hflat : Json.membersHeight (dict args) = 0 := by
    induction args with
    | nil => rfl
    | cons a args ih =>
      rw [dict, List.map_cons, Json.membersHeight]
      exact (max_eq_right (Nat.zero_le _)).trans ih
  rw [Json.height, hflat]

theorem height_body (target : Target) (token : Str) (command : String) (args : List (Str × Str)) :
    Json.height (body target token command args) = 2 := by
  have hargs := height_dict args
  unfold body
  cases sentToken target token <;> simp [Json.height, Json.membersHeight, Json.memberHeight] at hargs ⊢ <;> omega

theorem isPlain_body (target : Target) {token : Str} (htoken : Json.isSeparate token = true) (h : call.Takes args) :
    Json.isPlain (body target token call.command args) = true := by
  have hcommand := isSeparate_text call.command
  have hargs := h.plain
  have hstring : ∀ s, Json.isPlain (.string s) = Json.isSeparate s := fun _ => rfl
  unfold body sentToken
  rw [Json.isPlain]
  split
  · have hkeys : [text "command", text "args", text "token"].Nodup := by decide
    simpa [Json.plainMembers, Json.plainMember, hstring, isSeparate_text, htoken, hargs] using hkeys
  · have hkeys : [text "command", text "args"].Nodup := by decide
    simpa [Json.plainMembers, Json.plainMember, hstring, isSeparate_text, hargs] using hkeys

theorem body_line (target : Target) {token : Str} (htoken : Json.isSeparate token = true) (h : call.Takes args) :
    ∀ c ∈ Json.dumps (body target token call.command args), Json.isLineChar c = true :=
  Json.isLineChar_of_dumps (isPlain_body target htoken h)

end Body

/-! ### What `vpnctl` reads -/

end AmneziaVpnBot.Provision

namespace AmneziaVpnBot.Vpnctl

open Provision (Call Target dict sentToken requestBytes)

theorem mem_upToNewline {chunks : List (List UInt8)} (h : newline ∈ chunks.flatten) : newline ∈ upToNewline chunks := by
  induction chunks with
  | nil => cases h
  | cons chunk chunks ih =>
    rw [upToNewline]
    split
    · assumption
    · rw [List.flatten_cons, List.mem_append] at h
      exact List.mem_append_right _ (ih (h.resolve_left ‹_›))

theorem upToNewline_length_le (chunks : List (List UInt8)) : (upToNewline chunks).length ≤ chunks.flatten.length := by
  induction chunks with
  | nil => rfl
  | cons chunk chunks ih =>
    rw [upToNewline, List.flatten_cons, List.length_append]
    split
    · omega
    · rw [List.length_append]
      omega

/-- A short text with a newline arrives, however it is cut and whatever comes after it. -/
theorem arrives_of_sent {caller : Caller} (hlen : caller.sent.length ≤ maxRequestBytes)
    (hline : newline ∈ caller.sent) :
    caller.arrives = true := by
  have hsocket : ∀ socket : Socket, socket.chunks.flatten.length ≤ maxRequestBytes → newline ∈ socket.chunks.flatten →
      socket.arrives = true := by
    intro socket hlen hline
    have hshort := (upToNewline_length_le socket.chunks).trans hlen
    simp [Socket.arrives, hshort, mem_upToNewline hline]
  cases caller with
  | stdin bytes => exact decide_eq_true hlen
  | unix socket => exact hsocket socket hlen hline
  | tcp socket _ => exact hsocket socket hlen hline

theorem firstLine_encodeText {t : Text} (h : ∀ c ∈ t, Json.isLineChar c = true) :
    firstLine (Utf8.encodeText (t ++ ['\n'])) = Utf8.encodeText t := by
  have hascii : ∀ c ∈ t, 0x20 ≤ c.toNat ∧ c.toNat < 0x7f := fun c hc => Json.isPrintable_iff.mp (h c hc)
  have hbytes : ∀ b ∈ Utf8.encodeText t, (decide (b ≠ newline)) = true := by
    rw [Utf8.encodeText_ascii fun c hc => by have := hascii c hc; omega]
    intro b hb
    obtain ⟨c, hc, rfl⟩ := List.mem_map.mp hb
    rw [decide_eq_true_eq]
    intro he
    have hten := congrArg UInt8.toNat he
    rw [UInt8.toNat_ofNat_of_lt' (show _ < 256 by have := hascii c hc; omega)] at hten
    have := (hascii c hc).1
    change c.toNat = 10 at hten
    omega
  rw [Utf8.encodeText_append, firstLine, List.takeWhile_append_of_pos hbytes]
  exact List.append_nil _

/-- The request that a call is. -/
def requestOf (target : Target) (token : Str) (call : Call) (args : List (Str × Str)) : Request :=
  ⟨some (.string (str call.command)), dict args, (sentToken target token).map .string⟩

theorem toRequest_body (target : Target) (token : Str) (call : Call) (args : List (Str × Str)) :
    toRequest (Provision.body target token call.command args) = .ok (requestOf target token call args) := by
  unfold Provision.body requestOf
  cases sentToken target token <;> rfl

section Read

variable {limit : ℕ} {target : Target} {token : Str} {call : Call} {args : List (Str × Str)}

theorem readLine_body (hlimit : 2 ≤ limit) (htoken : Json.isSeparate token = true) (h : call.Takes args) :
    readLine limit (Utf8.encodeText (Json.dumps (Provision.body target token call.command args))) =
      .ok (requestOf target token call args) := by
  have hheight : ∀ l ∈ some limit, Json.height (Provision.body target token call.command args) ≤ l := by
    rintro l ⟨⟩
    rwa [Provision.height_body]
  have hloads : Json.loads (some limit) (Json.dumps (Provision.body target token call.command args) ++ []) = _ :=
    Json.loads_dumps (Provision.isPlain_body target htoken h) hheight (by simp)
  rw [List.append_nil] at hloads
  rw [readLine, Utf8.decode_encodeText, Option.map_some, hloads]
  exact congrArg (Except.mapError Fault.error) (toRequest_body target token call args)

/-- A request is read as it was sent. -/
theorem readRequest_requestBytes (hlimit : 2 ≤ limit) (htoken : Json.isSeparate token = true) {bytes : List UInt8}
    (hargs : call.args target.slug = .ok args) (hbytes : requestBytes target token call = .ok bytes)
    (hlen : bytes.length ≤ maxRequestBytes) {caller : Caller} (hsent : caller.sent = bytes) :
    readRequest limit caller = .ok (requestOf target token call args) := by
  have htakes := Call.takes_of_args hargs
  have hline := Provision.body_line target htoken htakes
  obtain rfl : Utf8.encodeText (Json.dumps (Provision.body target token call.command args) ++ ['\n']) = bytes := by
    rw [requestBytes, hargs] at hbytes
    exact Except.ok.inj hbytes
  have hnew : newline ∈ caller.sent := by
    rw [hsent, Utf8.encodeText_append]
    exact List.mem_append_right _ List.mem_cons_self
  have harrives := arrives_of_sent (hsent ▸ hlen) hnew
  obtain ⟨-, hread⟩ | ⟨hnot, -⟩ := readRequest_cases limit caller
  · rw [hread, hsent, firstLine_encodeText hline, readLine_body hlimit htoken htakes]
  · rw [harrives] at hnot
    cases hnot

end Read

/-! ### What `vpnctl` runs -/

/-- A string as the text it is. -/
def plainText (s : Str) : Text := s.map Char.ofNat

/-- The command of a call, on the server itself. -/
def run (cfg : Settings) (e : Env) (now : ℕ) (slug : Str) : Call → Server → Except Fault Result × Server
  | .createPeer telegramUserId id =>
    let label := plainText ((Provision.requestLabel telegramUserId id slug).toOption.getD [])
    answer (createPeer cfg e id.text label) .peer
  | .disablePeer peer => answer (disablePeer cfg e (plainText peer)) .found
  | .enablePeer peer => answer (enablePeer cfg e (plainText peer)) .found
  | .removePeer peer => answer (removePeer cfg e (plainText peer)) .found
  | .getPeerStatus peer => answer (peerStatus cfg e now (plainText peer)) .status
  | .getPeerConfig peer => answer (getConfig (plainText peer)) .peer

theorem toText_of_lt {s : Str} (h : ∀ c ∈ s, c < 0x80) : toText s = some (plainText s) := by
  induction s with
  | nil => rfl
  | cons c s ih =>
    rw [List.forall_mem_cons] at h
    have hc : c.isValidChar := .inl (h.1.trans (by decide))
    rw [toText, List.mapM_cons, if_pos hc, show s.mapM _ = some (plainText s) from ih h.2]
    rfl

theorem toText_map (t : Text) : toText (t.map Char.toNat) = some t := by
  induction t with
  | nil => rfl
  | cons c t ih =>
    have hc : c.toNat.isValidChar := c.valid
    rw [List.map_cons, toText, List.mapM_cons, if_pos hc, Char.ofNat_toNat,
      show (t.map Char.toNat).mapM _ = some t from ih]
    rfl

theorem values_create (id label : Str) :
    ServeCommand.createPeer.values (dict [(str "subscription_id", id), (str "label", label)]) =
      some [(str "subscription_id", id), (str "label", label)] := rfl

theorem values_peer {c : ServeCommand} (h : c ≠ .createPeer) (peer : Str) :
    c.values (dict [(str "peer_id", peer)]) = some [(str "peer_id", peer)] := by
  cases c <;> first | rfl | exact absurd rfl h

theorem serveCommand_name (c : ServeCommand) : serveCommand (str c.name) = some c := by cases c <;> decide

theorem onPeer_of_matches {α : Type} (c : Text → Cmd α) (f : α → Result) {peer : Str}
    (h : Provision.matchesIdentifier peer = true) (s : Server) :
    onPeer c f peer s = answer (c (plainText peer)) f s := by
  rw [onPeer, toText_of_lt (Provision.lt_of_matchesIdentifier h)]

section Handle

variable {cfg : Config} (hawg : canSplit (cfg.get "AWG_BIN") = true) (e : Env) (now : ℕ)
    (token : Option Json) (s : Server)
include hawg

theorem handle_peer {c : ServeCommand} (hc : c ≠ .createPeer) (peer : Str) :
    handle cfg e now ⟨some (.string (str c.name)), dict [(str "peer_id", peer)], token⟩ s =
      c.run cfg.settings e now [(str "peer_id", peer)] s := by
  rw [handle]
  simp only [serveCommand_name, values_peer hc, hawg, if_true]

theorem handle_create (id label : Str) :
    handle cfg e now ⟨some (.string (str ServeCommand.createPeer.name)),
        dict [(str "subscription_id", id), (str "label", label)], token⟩ s =
          onSubscription cfg.settings e id label s := by
  rw [handle]
  simp only [serveCommand_name, values_create, hawg, if_true]
  rfl

end Handle

/-- One command is run, on the arguments of the call. -/
theorem handle_requestOf {cfg : Config} (hawg : canSplit (cfg.get "AWG_BIN") = true) (e : Env) (now : ℕ)
    {target : Target}
    (token : Str) {call : Call} {args : List (Str × Str)} (hargs : call.args target.slug = .ok args) (s : Server) :
    handle cfg e now (requestOf target token call args) s = run cfg.settings e now target.slug call s := by
  cases call with
  | createPeer telegramUserId id =>
    obtain ⟨label, hlabel, h⟩ := Except.bind_eq_ok.mp hargs
    obtain rfl := Except.ok.inj h
    have hmatch := (Provision.sanitizeIdentifier_string hlabel).2
    refine (handle_create hawg e now _ s _ _).trans ?_
    rw [onSubscription, toText_map, toText_of_lt (Provision.lt_of_matchesIdentifier hmatch), run, hlabel]
    rfl
  | disablePeer peer =>
    cases Call.takes_of_args hargs with
    | disable h =>
      exact (handle_peer hawg e now _ s (c := .disablePeer) (by decide) peer).trans (onPeer_of_matches _ _ h s)
  | enablePeer peer =>
    cases Call.takes_of_args hargs with
    | enable h =>
      exact (handle_peer hawg e now _ s (c := .enablePeer) (by decide) peer).trans (onPeer_of_matches _ _ h s)
  | removePeer peer =>
    cases Call.takes_of_args hargs with
    | remove h =>
      exact (handle_peer hawg e now _ s (c := .removePeer) (by decide) peer).trans (onPeer_of_matches _ _ h s)
  | getPeerStatus peer =>
    cases Call.takes_of_args hargs with
    | status h =>
      exact (handle_peer hawg e now _ s (c := .peerStatus) (by decide) peer).trans (onPeer_of_matches _ _ h s)
  | getPeerConfig peer =>
    cases Call.takes_of_args hargs with
    | config h =>
      exact (handle_peer hawg e now _ s (c := .getConfig) (by decide) peer).trans (onPeer_of_matches _ _ h s)

end AmneziaVpnBot.Vpnctl
