import AmneziaVpnBot.Wire.Replies
import AmneziaVpnBot.Vpnctl.Success

/-! A call of the provisioner from one end to the other. What the bot gets over the wire is what the command
returned on the server, and the server is left as the command left it. -/

namespace AmneziaVpnBot.Provision

open Vpnctl (Fault ServeCommand ServeError Result plainText)

/-- What a method of the provisioner returns. -/
inductive Outcome (δ : Type)
  | peer (peer : ProvisionedPeer)
  | done
  | config (configBytes : List UInt8)
  | status (status : PeerStatus δ)

variable {δ : Type}

/-- The methods, when `raw` is what the host answers. -/
def Call.read (py : Interpreter) (reader : StatusReader δ) (z : Zlib) (slug : Str) (raw : List UInt8) :
    Call → Except Raised (Outcome δ)
  | .createPeer telegramUserId subscriptionId =>
    (Provision.createPeer py z telegramUserId subscriptionId slug raw).map .peer
  | .disablePeer _ | .enablePeer _ | .removePeer _ => (runChecked py raw).map fun _ => .done
  | .getPeerStatus _ => (Provision.getPeerStatus py reader raw).map .status
  | .getPeerConfig _ => do
    let data ← runChecked py raw
    ((item data "config_b64" >>= b64decode).mapError fun _ => .retryable .malformed).map .config

/-- The command that answers a call. -/
def Call.serves : Call → ServeCommand
  | .createPeer .. => .createPeer
  | .disablePeer _ => .disablePeer
  | .enablePeer _ => .enablePeer
  | .removePeer _ => .removePeer
  | .getPeerStatus _ => .peerStatus
  | .getPeerConfig _ => .getConfig

/-! ### What a call is for -/

def codes (t : Text) : Str := t.map Char.toNat

/-- The failure of a command is raised; only a status takes it to mean that there is no such peer. -/
def Call.failed (δ : Type) (e : ServeError) (message : Text) : Call → Except Raised (Outcome δ)
  | .getPeerStatus _ => .ok (.status (missingStatus δ (codes message)))
  | _ => .error (classifyFailure e.exitCode (codes message))

/-- The status that was found, with the dict in which it came. -/
def statusOf (reader : StatusReader δ) (members : List (String × Json)) (st : Vpnctl.Status) : PeerStatus δ :=
  ⟨.bool st.exists', .bool st.isActive, st.lastHandshake.map reader.fromtimestamp, st.bytesReceived, st.bytesSent,
    some (codes (Json.dumps (Vpnctl.object members)))⟩

/-- The success of a command, which returned this dict. -/
def Call.succeeded (reader : StatusReader δ) (z : Zlib) (members : List (String × Json)) : Call → Result → Outcome δ
  | .createPeer .., .peer r => .peer ⟨codes r.peerId, codes r.label, codes r.filename, Utf8.encodeText r.config,
      if r.config = [] then none else (AmneziaCodec.encodeVpnUrl z (codes r.config)).toOption⟩
  | .getPeerConfig _, .peer r => .config (Utf8.encodeText r.config)
  | .getPeerStatus _, .status st => .status (statusOf reader members st)
  | _, _ => .done

/-- What a call comes to when its command ends so. -/
def Call.outcome (reader : StatusReader δ) (z : Zlib) (describe : ServeError → Text) (call : Call) :
    Except Fault Result → Except Raised (Outcome δ)
  | .error .raised => .error (.retryable .malformed)
  | .error (.error e) => call.failed δ e (describe e)
  | .ok r => (r.members z call.serves).elim (.error (.retryable .malformed)) fun members =>
    .ok (call.succeeded reader z members r)

/-- The reader gets the times and the dicts that `vpnctl` writes. -/
structure StatusReader.Reads (reader : StatusReader δ) : Prop where
  fromisoformat : ∀ ts t, Vpnctl.isoformat ts = some t → reader.fromisoformat (codes t) = some (reader.fromtimestamp ts)
  dumps : ∀ v, Json.isPlain v = true → Json.height v ≤ 1 → reader.dumps v = some (codes (Json.dumps v))

/-! ### The config and its key -/

theorem b64decode_configB64 (config : Text) :
    b64decode (.string (Vpnctl.configB64 config)) = .ok (Utf8.encodeText config) := by
  have hascii : ∀ b ∈ Base64.encode (Utf8.encodeText config), b.toNat < 128 := by
    intro b hb
    have hall : ∀ n < 64, (Base64.digit n).toNat < 128 := by decide
    obtain rfl | ⟨n, hn, rfl⟩ := Base64.mem_encode hb
    · decide
    · exact hall n hn
  have hencode : Codec.asciiEncode (Vpnctl.configB64 config) = .ok (Base64.encode (Utf8.encodeText config)) := by
    rw [Codec.asciiEncode, Vpnctl.configB64, if_pos (by simpa using hascii), List.map_map]
    exact congrArg Except.ok (List.map_id'' (fun b => UInt8.ofNat_toNat) _)
  rw [b64decode, hencode]
  simp only [Base64.decode_encode]
  rfl

theorem encodeText_eq_nil {t : Text} : Utf8.encodeText t = [] ↔ t = [] := by
  constructor
  · intro h
    have hdecode := Utf8.decode_encodeText t
    rw [h] at hdecode
    exact (Option.some.inj hdecode).symm
  · rintro rfl
    rfl

theorem vpnUrl_encodeText {z : Zlib} {config : Text} {url : Str} (h : Vpnctl.encodeVpnUrl z (codes config) = .ok url) :
    vpnUrl z (Utf8.encodeText config) =
      .ok (if config = [] then none else (AmneziaCodec.encodeVpnUrl z (codes config)).toOption) := by
  rw [AmneziaCodec.encodeVpnUrl_eq] at h
  have hdecode : Codec.utf8Decode (Utf8.encodeText config) = .ok (codes config) := by
    rw [Codec.utf8Decode, Utf8.decode_encodeText]
    rfl
  rw [vpnUrl, hdecode]
  simp only [encodeText_eq_nil]
  split
  · rfl
  · simp only [bind, Except.bind, h]
    rfl

/-! ### Names -/

theorem codes_plainText {s : Str} (h : ∀ c ∈ s, c < 0x80) : codes (plainText s) = s := by
  induction s with
  | nil => rfl
  | cons c s ih =>
    rw [List.forall_mem_cons] at h
    rw [plainText, codes, List.map_cons, List.map_cons, Utf8.toNat_ofNat_char (.inl (h.1.trans (by decide)))]
    exact congrArg (c :: ·) (ih h.2)

end AmneziaVpnBot.Provision

namespace AmneziaVpnBot.Vpnctl

/-- What `create-peer` and `get-config` return is about the client that was asked for. -/
theorem createPeer_peerResult {cfg : Settings} {e : Env} {id name : Text} {s t : Server} {r : PeerResult}
    (h : createPeer cfg e id name s = (.ok r, t)) :
    r.peerId = name ∧ r.label = name ∧ r.filename = name ++ Ext.conf.text := by
  obtain ⟨-, ⟨text, hfile, rfl⟩ | ⟨p, -, -, -, rfl⟩⟩ := createPeer_done h
  · rw [createPeer_existing h hfile]
    exact ⟨rfl, rfl, rfl⟩
  · exact ⟨rfl, rfl, rfl⟩

theorem answer_eq_ok {α : Type} {c : Cmd α} {f : α → Result} {s : Server} {r : Result} (h : (answer c f s).1 = .ok r) :
    ∃ a, c s = (.ok a, (answer c f s).2) ∧ r = f a := by
  unfold answer at h ⊢
  split at h
  next a t hc => exact ⟨a, hc, (Except.ok.inj h).symm⟩
  · cases h
  · cases h

end AmneziaVpnBot.Vpnctl

namespace AmneziaVpnBot.Provision

open Vpnctl
  (Result ServeError answer answer_eq_ok checkCaller createPeer_peerResult loadSettings requestOf respond run serve)

/-! ### Reading the reply -/

section Read

variable {δ : Type} {py : Interpreter} {reader : StatusReader δ} {z : Zlib} {slug : Str} {raw : List UInt8} {c : Call}
  {args : List (Str × Str)}

theorem read_of_error (hargs : c.args slug = .ok args) {raised : Raised} (h : call py raw = .error raised) :
    c.read py reader z slug raw = .error raised := by
  cases c with
  | createPeer telegramUserId id =>
    obtain ⟨label, hlabel, -⟩ := Except.bind_eq_ok.mp hargs
    rw [Call.read, Provision.createPeer, hlabel, runChecked, h]
    rfl
  | disablePeer | enablePeer | removePeer | getPeerConfig =>
    simp only [Call.read, runChecked, h]
    rfl
  | getPeerStatus =>
    simp only [Call.read, Provision.getPeerStatus, h]
    rfl

theorem runChecked_of_failed {n : ℤ} {message : Str} (hn : n ≠ 0) (h : call py raw = .ok ⟨n, [], message⟩) :
    runChecked py raw = .error (classifyFailure n message) := by
  rw [runChecked, h]
  simp only [bind, Except.bind, if_pos hn]
  rfl

theorem runChecked_of_done {data : List (Str × Json)} (h : call py raw = .ok ⟨0, data, []⟩) :
    runChecked py raw = .ok data := by
  rw [runChecked, h]
  rfl

theorem read_of_failed (hargs : c.args slug = .ok args) {e : ServeError} {message : Text}
    (h : call py raw = .ok ⟨e.exitCode, [], codes message⟩) : c.read py reader z slug raw = c.failed δ e message := by
  have hn : (e.exitCode : ℤ) ≠ 0 := by
    have := e.exitCode_lt.1
    omega
  have hfailed := runChecked_of_failed hn h
  cases c with
  | createPeer telegramUserId id =>
    obtain ⟨label, hlabel, -⟩ := Except.bind_eq_ok.mp hargs
    rw [Call.read, Provision.createPeer, hlabel, hfailed]
    rfl
  | disablePeer | enablePeer | removePeer | getPeerConfig =>
    simp only [Call.read, hfailed]
    rfl
  | getPeerStatus =>
    rw [Call.read, Provision.getPeerStatus, h]
    simp only [bind, Except.bind, if_pos hn]
    rfl

/-- The client's own dict gives its peer back. -/
theorem provisionedPeer_members {label : Str} (hmatch : matchesIdentifier label = true) {r : Vpnctl.PeerResult}
    {members : List (String × Json)} (hid : codes r.peerId = label) (hlabel : codes r.label = label)
    (h : r.members z = some members) :
    provisionedPeer z label (members.map fun m => (text m.1, m.2)) = .ok ⟨label, label, label ++ text ".conf",
      Utf8.encodeText r.config,
      if r.config = [] then none else (AmneziaCodec.encodeVpnUrl z (codes r.config)).toOption⟩ := by
  obtain ⟨url, hurl, rfl⟩ := Option.map_eq_some_iff.mp h
  have hurl := vpnUrl_encodeText (Except.eq_ok_of_toOption hurl)
  refine provisionedPeer_eq_ok ?_ hmatch ?_ hmatch ?_ (b64decode_configB64 r.config) hurl
  · simp only [List.cons_append, List.map_cons]
    exact congrArg (fun s => some (Json.string s)) hid
  · simp only [List.cons_append, List.map_cons]
    exact congrArg Json.string hlabel
  · simp only [List.cons_append, List.map_cons]
    rfl

theorem lookup_configB64 {r : Vpnctl.PeerResult} {members : List (String × Json)} (h : r.members z = some members) :
    item (members.map fun m => (text m.1, m.2)) "config_b64" = .ok (.string (Vpnctl.configB64 r.config)) := by
  obtain ⟨url, -, rfl⟩ := Option.map_eq_some_iff.mp h
  rw [item_eq_ok]
  simp only [List.cons_append, List.map_cons]
  rfl

/-- An integer that `vpnctl` writes is read back. -/
theorem toInt_intJson {n : ℕ} {v : Json} (h : Vpnctl.intJson n = some v) : toInt v = .ok n := by
  unfold Vpnctl.intJson at h
  split at h
  · cases h
  · obtain rfl := Option.some.inj h
    simp only [toInt, Json.readNumber_toDigits]

theorem isoformat_ne_nil {ts : ℕ} {t : Text} (h : Vpnctl.isoformat ts = some t) : t ≠ [] := by
  unfold Vpnctl.isoformat at h
  rintro rfl
  split at h
  split_ifs at h
  simp at h

/-- The status is what the dict says. -/
theorem readStatus_members (hreader : reader.Reads) {st : Vpnctl.Status} {members : List (String × Json)}
    (h : st.members = some members) :
    readStatus reader (members.map fun m => (text m.1, m.2)) (codes (Json.dumps (Vpnctl.object members))) =
      some (statusOf reader members st) := by
  have hmembers := h
  obtain ⟨last, hlast, h⟩ := Option.bind_eq_some_iff.mp h
  obtain ⟨received, hreceived, h⟩ := Option.bind_eq_some_iff.mp h
  obtain ⟨sent, hsent, h⟩ := Option.bind_eq_some_iff.mp h
  have hlookup : ∀ name v, (name, v) ∈ [("exists", Json.bool st.exists'), ("is_active", .bool st.isActive),
      ("last_handshake", last), ("bytes_received", received), ("bytes_sent", sent)] →
      (members.map fun m => (text m.1, m.2)).lookup (text name) = some v := by
    obtain rfl := Option.some.inj h
    simp only [List.cons_append, List.map_cons]
    intro name v hmem
    simp only [List.mem_cons, Prod.mk.injEq, List.not_mem_nil, or_false] at hmem
    obtain ⟨rfl, rfl⟩ | ⟨rfl, rfl⟩ | ⟨rfl, rfl⟩ | ⟨rfl, rfl⟩ | ⟨rfl, rfl⟩ := hmem <;> rfl
  have hhandshake : readHandshake reader (members.map fun m => (text m.1, m.2)) =
      some (st.lastHandshake.map reader.fromtimestamp) := by
    rw [readHandshake, hlookup "last_handshake" last (by simp), Option.getD_some]
    cases hts : st.lastHandshake with
    | none =>
      rw [hts] at hlast
      obtain rfl := Option.some.inj hlast
      rfl
    | some ts =>
      rw [hts] at hlast
      obtain ⟨t, ht, rfl⟩ := Option.map_eq_some_iff.mp hlast
      have htruthy : truthy (Vpnctl.textJson t) = true := by
        simpa [truthy, Vpnctl.textJson] using isoformat_ne_nil ht
      simp only [htruthy, ↓reduceIte]
      exact congrArg (Option.map some) (hreader.fromisoformat ts t ht)
  rw [readStatus, hhandshake, hlookup "bytes_received" received (by simp), hlookup "bytes_sent" sent (by simp),
    hlookup "exists" (.bool st.exists') (by simp),
    hlookup "is_active" (.bool st.isActive) (by simp)]
  simp only [Option.getD_some, toInt_intJson hreceived, toInt_intJson hsent]
  rfl

theorem getPeerStatus_members (hreader : reader.Reads) {st : Vpnctl.Status} {members : List (String × Json)}
    (hmembers : st.members = some members) (h : call py raw = .ok ⟨0, members.map fun m => (text m.1, m.2), []⟩) :
    getPeerStatus py reader raw = .ok (statusOf reader members st) := by
  have hflat := Vpnctl.Status.isFlat hmembers
  have hdumps := hreader.dumps _ hflat.isPlain hflat.height_le
  rw [getPeerStatus, h]
  simp only [bind, Except.bind, ne_eq, not_true_eq_false, ↓reduceIte]
  rw [show Json.object (members.map fun m => (text m.1, m.2)) = Vpnctl.object members from rfl, hdumps]
  simp only [readStatus_members hreader hmembers, Option.getD_some]
  rfl

theorem read_of_done {cfg : Vpnctl.Settings} {e : Vpnctl.Env} {now : ℕ} {s : Vpnctl.Server} {r : Result}
    {members : List (String × Json)} (hargs : c.args slug = .ok args) (hrun : (run cfg e now slug c s).1 = .ok r)
    (hmembers : r.members z c.serves = some members)
    (hreader : ∀ peer, c = .getPeerStatus peer → reader.Reads)
    (h : call py raw = .ok ⟨0, members.map fun m => (text m.1, m.2), []⟩) :
    c.read py reader z slug raw = .ok (c.succeeded reader z members r) := by
  have hdone := runChecked_of_done h
  cases c with
  | createPeer telegramUserId id =>
    obtain ⟨label, hlabel, -⟩ := Except.bind_eq_ok.mp hargs
    have hmatch := (sanitizeIdentifier_string hlabel).2
    have hcodes := codes_plainText (lt_of_matchesIdentifier hmatch)
    rw [run, hlabel] at hrun
    obtain ⟨a, ha, rfl⟩ := answer_eq_ok hrun
    obtain ⟨hid, hname, hfile⟩ := createPeer_peerResult ha
    have hid : codes a.peerId = label := by rw [hid]; exact hcodes
    have hname : codes a.label = label := by rw [hname]; exact hcodes
    have hfile : codes a.filename = label ++ text ".conf" := by
      rw [hfile, codes, List.map_append]
      exact congrArg (· ++ text ".conf") hcodes
    rw [Call.read, Provision.createPeer, hlabel, hdone, Call.succeeded, hid, hname, hfile]
    simp only [bind, Except.bind, provisionedPeer_members hmatch hid hname hmembers]
    rfl
  | disablePeer | enablePeer | removePeer =>
    rw [Call.read, hdone]
    rfl
  | getPeerStatus peer =>
    obtain ⟨st, -, rfl⟩ := answer_eq_ok hrun
    rw [Call.read, getPeerStatus_members (hreader peer rfl) hmembers h]
    rfl
  | getPeerConfig peer =>
    obtain ⟨a, -, rfl⟩ := answer_eq_ok hrun
    rw [Call.read, hdone, Call.succeeded]
    simp only [bind, Except.bind, lookup_configB64 hmembers, b64decode_configB64]
    rfl

end Read

/-- The bot reads of a reply what the command came to. -/
theorem read_reply {δ : Type} {py : Interpreter} (hnesting : 2 ≤ py.nesting) {reader : StatusReader δ} {z : Zlib}
    {describe : ServeError → Text} {slug : Str} {c : Call} {args : List (Str × Str)}
    (hreader : ∀ peer, c = .getPeerStatus peer → reader.Reads) (hargs : c.args slug = .ok args) {cfg : Vpnctl.Settings}
    {e : Vpnctl.Env} {now : ℕ} {s : Vpnctl.Server} {raw : List UInt8}
    (hraw : raw = Vpnctl.reply z describe c.serves (respond (run cfg e now slug c s).1))
    (hlen : raw.length ≤ maxResponseBytes) :
    c.read py reader z slug raw = c.outcome reader z describe (run cfg e now slug c s).1 := by
  subst hraw
  have hcall := call_reply hnesting z describe c.serves (respond (run cfg e now slug c s).1) hlen
  cases hrun : (run cfg e now slug c s).1 with
  | error fault =>
    rw [hrun] at hcall
    cases fault with
    | raised => exact read_of_error hargs hcall
    | error err => exact read_of_failed hargs hcall
  | ok r =>
    rw [hrun] at hcall
    rw [Call.outcome]
    cases hmembers : r.members z c.serves with
    | none =>
      rw [respond, Option.bind_some, replyOf, hmembers] at hcall
      exact read_of_error hargs hcall
    | some members =>
      rw [respond, Option.bind_some, replyOf, hmembers] at hcall
      exact read_of_done hargs hrun hmembers hreader hcall

theorem read_congr {δ : Type} {py : Interpreter} {raw raw' : List UInt8} (h : call py raw = call py raw')
    (reader : StatusReader δ) (z : Zlib) (slug : Str) (c : Call) :
    c.read py reader z slug raw = c.read py reader z slug raw' := by
  have hchecked : runChecked py raw = runChecked py raw' := by rw [runChecked, runChecked, h]
  cases c with
  | createPeer => rw [Call.read, Call.read, Provision.createPeer, Provision.createPeer, hchecked]
  | disablePeer | enablePeer | removePeer | getPeerConfig => simp only [Call.read, hchecked]
  | getPeerStatus => simp only [Call.read, Provision.getPeerStatus, h]

/-! ### From end to end -/

/-- A request that arrives whole, from a caller that is let in, runs its command. -/
theorem serve_call {w : Vpnctl.World} (hw : 2 ≤ w.nesting) {file : Option Text} {cfg : Vpnctl.Config}
    (hcfg : loadSettings file = .ok cfg) (hawg : Vpnctl.canSplit (cfg.get "AWG_BIN") = true)
    {target : Target} {token : Str} (htoken : Json.isSeparate token = true) {c : Call} {args : List (Str × Str)}
    (hargs : c.args target.slug = .ok args) {bytes : List UInt8} (hbytes : requestBytes target token c = .ok bytes)
    (hlen : bytes.length ≤ Vpnctl.maxRequestBytes) {caller : Vpnctl.Caller} (hsent : caller.sent = bytes)
    (hcaller : checkCaller w cfg caller (some (requestOf target token c args)) = .ok ()) (s : Vpnctl.Server) :
    serve w file caller s = (respond (run cfg.settings w.env w.now target.slug c s).1,
      (run cfg.settings w.env w.now target.slug c s).2) := by
  have hread := Vpnctl.readRequest_requestBytes hw htoken hargs hbytes hlen hsent
  have haccept : Vpnctl.accept w cfg caller = .ok (requestOf target token c args) := by
    rw [Vpnctl.accept, hread]
    simp only [hcaller]
    rfl
  rw [Vpnctl.serve_of_request hcfg haccept s, Vpnctl.handle_requestOf hawg w.env w.now token hargs]

/-- A reply that is too large is not read at all. -/
theorem read_chunks {δ : Type} {py : Interpreter} (hpy : 2 ≤ py.nesting) {reader : StatusReader δ} {z : Zlib}
    {describe : ServeError → Text} {slug : Str} {c : Call} {args : List (Str × Str)}
    (hreader : ∀ peer, c = .getPeerStatus peer → reader.Reads) (hargs : c.args slug = .ok args) {cfg : Vpnctl.Settings}
    {e : Vpnctl.Env} {now : ℕ}
    {s : Vpnctl.Server} {chunks : List (List UInt8)}
    (hchunks : chunks.flatten = Vpnctl.reply z describe c.serves (respond (run cfg e now slug c s).1)) :
    c.read py reader z slug (responseLoop [] chunks) =
      if maxResponseBytes < chunks.flatten.length then .error (.retryable .tooLarge)
      else c.outcome reader z describe (run cfg e now slug c s).1 := by
  rw [read_congr (call_responseLoop py chunks)]
  split
  next hlarge => exact read_of_error hargs (if_pos hlarge)
  next hshort => exact read_reply hpy hreader hargs hchunks (Nat.not_lt.mp hshort)

section Small

def smallTarget : Target := ⟨[], text "de-1"⟩

def smallCall : Call := .createPeer 42 firstUuid

def smallRequest : List UInt8 := ((requestBytes smallTarget [] smallCall).toOption).getD []

def smallCaller : Vpnctl.Caller := .unix ⟨[smallRequest.take 20, smallRequest.drop 20], .closed, by decide +kernel⟩

/-- The reply to the call, which comes in one piece. -/
def smallReply : List UInt8 :=
  Vpnctl.reply noZlib (fun _ => []) .createPeer (serve Vpnctl.smallWorld none smallCaller Vpnctl.smallServer).1

/-- Times are kept as `vpnctl` writes them. -/
def smallReader : StatusReader Str where
  fromtimestamp ts := codes ((Vpnctl.isoformat ts).getD [])
  fromisoformat := some
  dumps v := some (codes (Json.dumps v))

end Small

end AmneziaVpnBot.Provision
