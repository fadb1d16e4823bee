import AmneziaVpnBot.Wire.Requests
import AmneziaVpnBot.Provision.Untrusted

/-! The replies of `vpnctl` on their way to the bot: the outcome of a command as one line of JSON, and what the
provisioner makes of it. -/

namespace AmneziaVpnBot.Vpnctl

/-! ### Times -/

def monthLengths (leap : Bool) : List ℕ := [31, if leap then 29 else 28, 31, 30, 31, 30, 31, 31, 30, 31, 30, 31]

/-- The month and its day that a day of the year is. -/
def monthDay : (month : ℕ) → List ℕ → (day : ℕ) → ℕ × ℕ
  | month, [], day => (month, day + 1)
  | month, length :: lengths, day =>
    if day < length then (month, day + 1) else monthDay (month + 1) lengths (day - length)

def isLeap (year : ℕ) : Bool := year % 4 = 0 && (year % 100 ≠ 0 || year % 400 = 0)

/-- Year, month and day, where day 0 is the first of January of the year 1. -/
def ordinalDate (n : ℕ) : ℕ × ℕ × ℕ :=
  let n400 := n / 146097
  let n100 := n % 146097 / 36524
  let n4 := n % 146097 % 36524 / 1461
  let n1 := n % 146097 % 36524 % 1461 / 365
  let year := n400 * 400 + n100 * 100 + n4 * 4 + n1 + 1
  -- the last day of 4 or 400 years
  if n1 = 4 ∨ n100 = 4 then (year - 1, 12, 31)
  else (year, monthDay 1 (monthLengths (isLeap year)) (n % 146097 % 36524 % 1461 % 365))

def zfill (width n : ℕ) : Text :=
  List.replicate (width - (Nat.toDigits 10 n).length) '0' ++ Nat.toDigits 10 n

/-- The days from the year 1 to 1970. -/
def epoch : ℕ := 719162

/-- `datetime.fromtimestamp(ts, tz=timezone.utc).isoformat()`, which ends with the year 9999. -/
def isoformat (ts : ℕ) : Option Text :=
  let (year, month, day) := ordinalDate (epoch + ts / 86400)
  if 9999 < year then none
  else some (zfill 4 year ++ '-' :: zfill 2 month ++ '-' :: zfill 2 day ++ 'T' :: zfill 2 (ts / 3600 % 24) ++
    ':' :: zfill 2 (ts / 60 % 60) ++ ':' :: zfill 2 (ts % 60) ++ "+00:00".toList)

example : [0, 951782400, 1735689599, 4102444800].map isoformat =
    ["1970-01-01T00:00:00+00:00", "2000-02-29T00:00:00+00:00", "2024-12-31T23:59:59+00:00",
      "2100-01-01T00:00:00+00:00"].map (some ·.toList) := by
  decide +kernel

/-! ### What `vpnctl` sends -/

def textJson (t : Text) : Json := .string (t.map Char.toNat)

/-- An `int`, which has no more digits than Python writes. -/
def intJson (n : ℕ) : Option Json :=
  if Json.maxDigits < (Nat.toDigits 10 n).length then none else some (.number (Nat.toDigits 10 n))

/-- A dict whose keys are written in the program. -/
def object (members : List (String × Json)) : Json := .object (members.map fun m => (str m.1, m.2))

/-- `base64.b64encode(config_text.encode("utf-8")).decode("ascii")` -/
def configB64 (config : Text) : Str := (Base64.encode (Utf8.encodeText config)).map UInt8.toNat

/-- `peer_result`; there is none for a config that is too large for its `vpn://` key. -/
def PeerResult.members (z : Zlib) (r : PeerResult) : Option (List (String × Json)) :=
  (encodeVpnUrl z (r.config.map Char.toNat)).toOption.map fun vpnUrl =>
    [("status", textJson "success".toList), ("peer_id", textJson r.peerId), ("label", textJson r.label),
      ("filename", textJson r.filename), ("config_b64", .string (configB64 r.config)), ("vpn_url", .string vpnUrl)] ++
      (r.address.toList.map fun address => ("address", textJson address)) ++
      r.existing.toList.map fun existing => ("existing", .bool existing)

/-- `remove-peer` says nothing of `enabled`. -/
def FoundResult.members (c : ServeCommand) (r : FoundResult) : List (String × Json) :=
  [("status", textJson "success".toList), ("peer_id", textJson r.peerId), ("found", .bool r.found)] ++
    match c with
    | .disablePeer => [("enabled", .bool false)]
    | .enablePeer => [("enabled", .bool true)]
    | _ => []

def Status.members (st : Status) : Option (List (String × Json)) := do
  let lastHandshake ← st.lastHandshake.elim (some .null) fun ts => (isoformat ts).map textJson
  let bytesReceived ← intJson st.bytesReceived
  let bytesSent ← intJson st.bytesSent
  return [("status", textJson "success".toList), ("peer_id", textJson st.peerId), ("exists", .bool st.exists'),
    ("enabled", .bool st.enabled), ("is_active", .bool st.isActive), ("last_handshake", lastHandshake),
    ("bytes_received", bytesReceived), ("bytes_sent", bytesSent)] ++ st.live.toList.map fun live => ("live", .bool live)

/-- The dict that a command returns. -/
def Result.members (z : Zlib) (c : ServeCommand) : Result → Option (List (String × Json))
  | .peer r => r.members z
  | .found r => some (r.members c)
  | .status st => st.members

/-- `response` of `cmd_serve`; `describe` is `str` of the exception. -/
def Response.members (z : Zlib) (describe : ServeError → Text) (c : ServeCommand) :
    Response → Option (List (String × Json))
  | .result r => (r.members z c).map fun members =>
    [("exit_code", .number (Nat.toDigits 10 0)), ("result", object members)]
  | .error e => some [("exit_code", .number (Nat.toDigits 10 e.exitCode)), ("error", textJson (describe e))]

/-- `(json.dumps(response) + "\n").encode("utf-8")` -/
def responseBytes (members : List (String × Json)) : List UInt8 :=
  Utf8.encodeText (Json.dumps (object members) ++ ['\n'])

/-- What comes over the connection; an exception that is not caught sends nothing. -/
def reply (z : Zlib) (describe : ServeError → Text) (c : ServeCommand) (response : Option Response) : List UInt8 :=
  ((response.bind (·.members z describe c)).map responseBytes).getD []

/-! ### Its shape -/

theorem isPlain_object {members : List (String × Json)} (hkeys : (members.map fun m => str m.1).Nodup)
    (h : ∀ m ∈ members, Json.isPlain m.2 = true) : Json.isPlain (object members) = true := by
  have hvalues : Json.plainMembers (members.map fun m => (str m.1, m.2)) = true := by
    clear hkeys
    induction members with
    | nil => rfl
    | cons m members ih =>
      rw [List.forall_mem_cons] at h
      rw [List.map_cons, Json.plainMembers, Json.plainMember, ih h.2, h.1, str, Json.isSeparate_text]
      rfl
  rw [object, Json.isPlain, hvalues, List.map_map, Bool.and_true]
  exact decide_eq_true hkeys

theorem height_object {n : ℕ} {members : List (String × Json)} (h : ∀ m ∈ members, Json.height m.2 ≤ n) :
    Json.height (object members) ≤ n + 1 := by
  rw [object, Json.height]
  refine Nat.succ_le_succ ?_
  induction members with
  | nil => exact Nat.zero_le n
  | cons m members ih =>
    rw [List.forall_mem_cons] at h
    exact max_le h.1 (ih h.2)

/-- A value that is no container and can be read back. -/
def IsScalar (v : Json) : Prop := Json.isPlain v = true ∧ Json.height v ≤ 0

theorem isScalar_textJson (t : Text) : IsScalar (textJson t) := ⟨Json.isSeparate_text t, le_rfl⟩

theorem isScalar_bool (b : Bool) : IsScalar (.bool b) := ⟨rfl, le_rfl⟩

theorem isScalar_bytes (data : List UInt8) : IsScalar (.string (data.map UInt8.toNat)) := by
  refine ⟨Json.isSeparate_of_lt fun c hc => ?_, le_rfl⟩
  obtain ⟨b, -, rfl⟩ := List.mem_map.mp hc
  exact b.toNat_lt.trans (by decide)

theorem isScalar_intJson {n : ℕ} {v : Json} (h : intJson n = some v) : IsScalar v := by
  unfold intJson at h
  split at h
  · cases h
  · obtain rfl := Option.some.inj h
    exact ⟨Json.isLiteral_toDigits (by omega), le_rfl⟩

/-- A key of the codec is ASCII. -/
theorem isScalar_vpnUrl {z : Zlib} {config vpnUrl : Str} (h : encodeVpnUrl z config = .ok vpnUrl) :
    IsScalar (.string vpnUrl) := by
  obtain ⟨data, -, h⟩ := Except.bind_eq_ok.mp h
  obtain ⟨header, -, h⟩ := Except.bind_eq_ok.mp h
  obtain rfl := Except.ok.inj h
  have hscheme : ∀ c ∈ Codec.scheme, c < 0xd800 := by decide
  refine ⟨Json.isSeparate_of_lt ?_, le_rfl⟩
  rw [List.forall_mem_append]
  refine ⟨hscheme, fun c hc => ?_⟩
  obtain ⟨b, -, rfl⟩ := List.mem_map.mp hc
  exact b.toNat_lt.trans (by decide)

/-- The dict of a command: distinct keys, and no containers in it. -/
structure IsFlat (members : List (String × Json)) : Prop where
  keys : (members.map fun m => str m.1).Nodup
  scalars : ∀ m ∈ members, IsScalar m.2

theorem PeerResult.isFlat {z : Zlib} {r : PeerResult} {members : List (String × Json)}
    (h : r.members z = some members) :
    IsFlat members := by
  obtain ⟨vpnUrl, hurl, rfl⟩ := Option.map_eq_some_iff.mp h
  have hkeys : ["status", "peer_id", "label", "filename", "config_b64", "vpn_url", "address", "existing"].map
    str |>.Nodup := by
    decide
  have hvpnUrl := isScalar_vpnUrl (Except.eq_ok_of_toOption hurl)
  have hconfig : IsScalar (.string (configB64 r.config)) := isScalar_bytes _
  constructor
  · refine hkeys.sublist ?_
    cases r.address <;> cases r.existing <;> simp
  · cases r.address <;> cases r.existing <;> simp [isScalar_textJson, isScalar_bool, hvpnUrl, hconfig]

theorem FoundResult.isFlat (c : ServeCommand) (r : FoundResult) : IsFlat (r.members c) := by
  have hkeys : ["status", "peer_id", "found", "enabled"].map str |>.Nodup := by decide
  constructor
  · refine hkeys.sublist ?_
    cases c <;> simp [FoundResult.members]
  · cases c <;> simp [FoundResult.members, isScalar_textJson, isScalar_bool]

theorem Status.isFlat {st : Status} {members : List (String × Json)} (h : st.members = some members) :
    IsFlat members := by
  obtain ⟨lastHandshake, hlast, h⟩ := Option.bind_eq_some_iff.mp h
  obtain ⟨bytesReceived, hreceived, h⟩ := Option.bind_eq_some_iff.mp h
  obtain ⟨bytesSent, hsent, h⟩ := Option.bind_eq_some_iff.mp h
  obtain rfl := Option.some.inj h
  have hkeys : ["status", "peer_id", "exists", "enabled", "is_active", "last_handshake", "bytes_received", "bytes_sent",
      "live"].map str |>.Nodup := by decide
  have hscalar : IsScalar lastHandshake := by
    cases hts : st.lastHandshake with
    | none =>
      rw [hts] at hlast
      cases hlast
      exact ⟨rfl, le_rfl⟩
    | some ts =>
      rw [hts] at hlast
      obtain ⟨t, -, rfl⟩ := Option.map_eq_some_iff.mp hlast
      exact isScalar_textJson t
  constructor
  · refine hkeys.sublist ?_
    cases st.live <;> simp
  · have hreceived := isScalar_intJson hreceived
    have hsent := isScalar_intJson hsent
    cases st.live <;> simp [isScalar_textJson, isScalar_bool, hscalar, hreceived, hsent]

theorem Result.isFlat {z : Zlib} {c : ServeCommand} {r : Result} {members : List (String × Json)}
    (h : r.members z c = some members) : IsFlat members := by
  cases r with
  | peer r => exact PeerResult.isFlat h
  | found r =>
    obtain rfl := Option.some.inj h
    exact r.isFlat c
  | status st => exact Status.isFlat h

theorem IsFlat.isPlain {members : List (String × Json)} (h : IsFlat members) : Json.isPlain (object members) = true :=
  isPlain_object h.keys fun m hm => (h.scalars m hm).1

theorem IsFlat.height_le {members : List (String × Json)} (h : IsFlat members) : Json.height (object members) ≤ 1 :=
  height_object fun m hm => (h.scalars m hm).2

theorem ServeError.exitCode_lt (e : ServeError) : 0 < e.exitCode ∧ e.exitCode < 5 := by
  cases e with
  | command err => cases err <;> simp [exitCode, Error.exitCode]
  | badRequest | unknownCommand | badValue | refused | refusedTags | whoisFailed | whoisError => simp [exitCode]

/-- The exit codes, as numbers of JSON. -/
theorem isScalar_exitCode {n : ℕ} (h : n < 5) : IsScalar (.number (Nat.toDigits 10 n)) := by
  refine ⟨Json.isLiteral_toDigits ?_, le_rfl⟩
  rw [Nat.toDigits_of_lt_base (by omega)]
  exact (by decide : 1 ≤ Json.maxDigits)

theorem Response.isPlain {z : Zlib} {describe : ServeError → Text} {c : ServeCommand} {response : Response}
    {members : List (String × Json)} (h : response.members z describe c = some members) :
    Json.isPlain (object members) = true ∧ Json.height (object members) ≤ 2 := by
  cases response with
  | result r =>
    obtain ⟨result, hresult, rfl⟩ := Option.map_eq_some_iff.mp h
    have hflat := Result.isFlat hresult
    have hcode := isScalar_exitCode (n := 0) (by decide)
    have hkeys : ["exit_code", "result"].map str |>.Nodup := by decide
    constructor
    · exact isPlain_object hkeys (List.forall_mem_cons.mpr ⟨hcode.1, List.forall_mem_singleton.mpr hflat.isPlain⟩)
    · exact height_object (List.forall_mem_cons.mpr
        ⟨hcode.2.trans (Nat.zero_le 1), List.forall_mem_singleton.mpr hflat.height_le⟩)
  | error e =>
    obtain rfl := Option.some.inj h
    have hcode := isScalar_exitCode e.exitCode_lt.2
    have htext := isScalar_textJson (describe e)
    have hkeys : ["exit_code", "error"].map str |>.Nodup := by decide
    constructor
    · exact isPlain_object hkeys (List.forall_mem_cons.mpr ⟨hcode.1, List.forall_mem_singleton.mpr htext.1⟩)
    · exact height_object (List.forall_mem_cons.mpr
        ⟨hcode.2.trans (Nat.zero_le 1), List.forall_mem_singleton.mpr (htext.2.trans (Nat.zero_le 1))⟩)

end AmneziaVpnBot.Vpnctl

namespace AmneziaVpnBot.Provision

open Vpnctl (ServeCommand ServeError Response Result object responseBytes)

/-! ### What the bot reads -/

/-- The loop of `_exchange`, where `read` gives these pieces. -/
def responseLoop : List UInt8 → List (List UInt8) → List UInt8
  | response, [] => response
  | response, chunk :: chunks =>
    if maxResponseBytes < response.length then response else responseLoop (response ++ chunk) chunks

/-- The reply is all that was sent, or is too large as that is. -/
theorem responseLoop_cases (response : List UInt8) (chunks : List (List UInt8)) :
    responseLoop response chunks = response ++ chunks.flatten ∨
      maxResponseBytes < (responseLoop response chunks).length ∧
      maxResponseBytes < (response ++ chunks.flatten).length := by
  induction chunks generalizing response with
  | nil => exact .inl (List.append_nil _).symm
  | cons chunk chunks ih =>
    rw [responseLoop, List.flatten_cons, ← List.append_assoc]
    split
    · right
      rw [List.length_append, List.length_append]
      omega
    · exact ih _

theorem call_responseLoop (py : Interpreter) (chunks : List (List UInt8)) :
    call py (responseLoop [] chunks) = call py chunks.flatten := by
  obtain h | ⟨hread, hsent⟩ := responseLoop_cases [] chunks
  · rw [h, List.nil_append]
  · rw [List.nil_append] at hsent
    rw [call, call, if_pos hread, if_pos hsent]

theorem call_silent (py : Interpreter) {chunks : List (List UInt8)} (h : chunks.flatten = []) :
    call py (responseLoop [] chunks) = .error (.retryable .malformed) := by
  rw [call_responseLoop, h]
  rfl

section Reply

variable {py : Interpreter} {z : Zlib} {describe : ServeError → Text} {c : ServeCommand} {response : Response}
  {members : List (String × Json)}

theorem readReply_responseBytes (hnesting : 2 ≤ py.nesting) (h : response.members z describe c = some members) :
    readReply py (responseBytes members) = readResponse py (object members) := by
  obtain ⟨hplain, hheight⟩ := Response.isPlain h
  have hroom : ∀ l ∈ some py.nesting, Json.height (object members) ≤ l := by
    rintro l ⟨⟩
    exact hheight.trans hnesting
  rw [readReply, responseBytes, Utf8.decode_encodeText, Option.map_some, Json.loads_dumps hplain hroom (by decide)]

theorem toInt_exitCode {n : ℕ} (h : n < 5) : toInt (.number (Nat.toDigits 10 n)) = .ok n := by
  have hall : ∀ n < 5, toInt (.number (Nat.toDigits 10 n)) = .ok n := by decide +kernel
  exact hall n h

/-- The reply as the bot reads it. -/
def replyOf (z : Zlib) (describe : ServeError → Text) (c : ServeCommand) : Response → Option Reply
  | .result r => (r.members z c).map fun members => ⟨0, members.map fun m => (text m.1, m.2), []⟩
  | .error e => some ⟨e.exitCode, [], (describe e).map Char.toNat⟩

theorem errorText_textJson (py : Interpreter) {response : List (Str × Json)} {t : Text}
    (h : response.lookup (text "error") = some (Vpnctl.textJson t)) :
    errorText py response = .ok (t.map Char.toNat) := by
  rw [errorText, h, Option.getD_some]
  cases t <;> rfl

theorem readResponse_object (py : Interpreter) (h : response.members z describe c = some members) :
    ∃ reply, replyOf z describe c response = some reply ∧ readResponse py (object members) = .ok reply := by
  cases response with
  | result r =>
    obtain ⟨result, hresult, rfl⟩ := Option.map_eq_some_iff.mp h
    refine ⟨⟨0, result.map fun m => (text m.1, m.2), []⟩, by rw [replyOf, hresult]; rfl, ?_⟩
    have herror : errorText py
      [(text "exit_code", .number (Nat.toDigits 10 0)), (text "result", object result)] = .ok [] := by
      rw [errorText, show List.lookup (text "error") _ = none from rfl]
      rfl
    exact (readResponse_of_ok rfl (toInt_exitCode (n := 0) (by decide)) herror).trans rfl
  | error e =>
    obtain rfl := Option.some.inj h
    refine ⟨_, rfl, ?_⟩
    have herror : errorText py
        [(text "exit_code", .number (Nat.toDigits 10 e.exitCode)), (text "error", Vpnctl.textJson (describe e))] =
        .ok ((describe e).map Char.toNat) := errorText_textJson py rfl
    exact (readResponse_of_ok rfl (toInt_exitCode e.exitCode_lt.2) herror).trans rfl

end Reply

/-- An answer that is none, or is no JSON, is malformed. -/
theorem call_reply {py : Interpreter} (hnesting : 2 ≤ py.nesting) (z : Zlib) (describe : ServeError → Text)
    (c : ServeCommand) (response : Option Response)
    (hlen : (Vpnctl.reply z describe c response).length ≤ maxResponseBytes) :
    call py (Vpnctl.reply z describe c response) =
      (response.bind (replyOf z describe c)).elim (.error (.retryable .malformed)) .ok := by
  rw [call, if_neg (Nat.not_lt.mpr hlen), Vpnctl.reply]
  have hnone : (readReply py []).mapError malformed = .error (.retryable .malformed) := rfl
  cases response with
  | none => exact hnone
  | some response =>
    rw [Option.bind_some, Option.bind_some]
    cases hmembers : response.members z describe c with
    | some members =>
      obtain ⟨reply, hreply, hread⟩ := readResponse_object py hmembers
      rw [Option.map_some, Option.getD_some, readReply_responseBytes hnesting hmembers, hread, hreply]
      rfl
    | none =>
      cases response with
      | error e => cases hmembers
      | result r =>
        rw [replyOf, Option.map_eq_none_iff.mp hmembers]
        exact hnone

end AmneziaVpnBot.Provision
