import AmneziaVpnBot.Provision.Client
import AmneziaVpnBot.Lib.Except

/-! A reply is only data: every sequence of bytes is refused with an error of the provisioner, or the peer it
yields is sound. The exact exceptions are a reply that is nested too deeply, an exit code that is an infinite
float, and a name that ends in a newline where all the rest is accepted. -/

namespace AmneziaVpnBot.Provision

/-! ### What is promised -/

/-- The config that a reply delivers, in base64. -/
def Delivers (raw : List UInt8) (config : Str) : Prop :=
  ∃ t response data, Utf8.decode raw = some t ∧ Json.parse t = some (.object response) ∧
    response.lookup (text "result") = some (.object data) ∧ data.lookup (text "config_b64") = some (.string config)

/-- A peer that the bot can pass on. -/
structure Sound (z : Zlib) (raw : List UInt8) (peer : ProvisionedPeer) : Prop where
  externalId : isIdentifier peer.externalId = true
  label : isIdentifier peer.label = true
  filename : peer.configFilename = peer.label ++ text ".conf"
  config : ∃ config data, Delivers raw config ∧ Codec.asciiEncode config = .ok data ∧
    Base64.decode true data = some peer.configBytes
  utf8 : ∃ t, Utf8.decode peer.configBytes = some t
  noUrl : peer.configBytes = [] → peer.vpnUrl = none
  url : peer.configBytes ≠ [] → ∃ t url, Utf8.encode t = some peer.configBytes ∧
    AmneziaCodec.encodeVpnUrl z t = .ok url ∧ peer.vpnUrl = some url

/-- What may come of a reply. -/
def OnlyData (z : Zlib) (raw : List UInt8) : Except Raised ProvisionedPeer → Prop
  | .ok peer => Sound z raw peer
  | .error (.retryable _) | .error (.permanent _) => True
  | .error _ => False

/-! ### When it is kept -/

def isInfinite : Json → Bool
  | .number literal => match Json.readNumber literal with
    | .float (.infinite _) => true
    | _ => false
  | _ => false

/-- `str` gives up on the error of the reply. -/
def errorTooDeep (py : Interpreter) (response : List (Str × Json)) : Bool :=
  match (response.lookup (text "error")).getD .null with
  | .string _ => false
  | v => truthy v && decide (py.reprNesting < depth v)

/-- Where a config is accepted together with the names beside it, the names end in no newline. -/
def NoNewline (safeLabel : Str) (data : List (Str × Json)) : Prop :=
  ∀ peerId label config bytes t, data.lookup (text "peer_id") = some (.string peerId) →
    (data.lookup (text "label")).getD (.string safeLabel) = .string label →
      data.lookup (text "config_b64") = some config → b64decode config = .ok bytes → Utf8.decode bytes = some t →
        bytes.length < 2 ^ 32 → matchesIdentifier peerId = true → matchesIdentifier label = true →
          endsInNewline peerId = false ∧ endsInNewline label = false

/-- The same of a reply that is an object. -/
def HarmlessResponse (py : Interpreter) (safeLabel : Str) (response : List (Str × Json)) : Prop :=
  ∀ exitCode, response.lookup (text "exit_code") = some exitCode →
    isInfinite exitCode = false ∧
      ∀ n, toInt exitCode = .ok n →
        errorTooDeep py response = false ∧
          (n = 0 → ∀ data, response.lookup (text "result") = some (.object data) → NoNewline safeLabel data)

/-- Replies that are not read, or read as something else than an object, are all harmless. -/
def Harmless (py : Interpreter) (safeLabel : Str) (raw : List UInt8) : Prop :=
  ∀ t, raw.length ≤ maxResponseBytes → Utf8.decode raw = some t →
    Json.nesting t ≤ py.nesting ∧
      ∀ response, Json.parse t = some (.object response) → HarmlessResponse py safeLabel response

/-! ### Conversions -/

theorem isIdentifier_newline {s : Str} (h : endsInNewline s = true) : isIdentifier s = false := by
  have hmem : 10 ∈ s := List.mem_of_getLast? (beq_iff_eq.mp h)
  have hall : s.all isIdentifierChar = false := by
    rw [List.all_eq_false]
    exact ⟨10, hmem, by decide⟩
  rw [isIdentifier, hall, Bool.and_false]

/-- A name that the pattern matches is an identifier but for the newline. -/
theorem isIdentifier_iff {s : Str} (h : matchesIdentifier s = true) :
    isIdentifier s = true ↔ endsInNewline s = false := by
  unfold matchesIdentifier at h
  cases hs : endsInNewline s with
  | false =>
    rw [hs] at h
    exact iff_of_true h rfl
  | true =>
    rw [isIdentifier_newline hs]
    exact iff_of_false Bool.false_ne_true (by decide)

theorem sanitizeIdentifier_eq_ok {v : Json} {s : Str} :
    sanitizeIdentifier v = .ok s ↔ v = .string s ∧ matchesIdentifier s = true := by
  cases v with
  | string t =>
    rw [sanitizeIdentifier]
    split
    · simp only [Except.ok.injEq, Json.string.injEq]
      exact ⟨fun h => ⟨h, h ▸ ‹_›⟩, fun h => h.1⟩
    · simp only [reduceCtorEq, Json.string.injEq, false_iff, not_and]
      rintro rfl
      exact ‹¬ _›
  | null | bool | number | array | object => simp [sanitizeIdentifier]

theorem item_eq_ok {data : List (Str × Json)} {name : String} {v : Json} :
    item data name = .ok v ↔ data.lookup (text name) = some v := by
  unfold item
  cases data.lookup (text name) <;> simp

/-- Only an infinite float overflows. -/
theorem toInt_cases (v : Json) :
    (isInfinite v = true ∧ toInt v = .error .overflow) ∨
      isInfinite v = false ∧ ((∃ n, toInt v = .ok n) ∨ toInt v = .error .value ∨ toInt v = .error .type) := by
  cases v with
  | null | array | object => exact .inr ⟨rfl, .inr (.inr rfl)⟩
  | bool b => exact .inr ⟨rfl, .inl ⟨_, rfl⟩⟩
  | string s =>
    refine .inr ⟨rfl, ?_⟩
    rw [toInt]
    cases Json.readInt s with
    | none => exact .inr (.inl rfl)
    | some n => exact .inl ⟨n, rfl⟩
  | number literal =>
    rw [toInt, isInfinite]
    rcases Json.readNumber literal with n | (⟨negative, magnitude⟩ | negative | _)
    · exact .inr ⟨rfl, .inl ⟨_, rfl⟩⟩
    · exact .inr ⟨rfl, .inl ⟨_, rfl⟩⟩
    · exact .inl ⟨rfl, rfl⟩
    · exact .inr ⟨rfl, .inr (.inl rfl)⟩

theorem errorText_cases (py : Interpreter) (response : List (Str × Json)) :
    (errorTooDeep py response = true ∧ errorText py response = .error .recursion) ∨
      errorTooDeep py response = false ∧ ∃ error, errorText py response = .ok error := by
  unfold errorTooDeep errorText
  generalize (response.lookup (text "error")).getD .null = v
  cases v with
  | string s =>
    refine .inr ⟨rfl, ?_⟩
    dsimp only
    split <;> exact ⟨_, rfl⟩
  | null | bool | number | array | object =>
    dsimp only
    cases truthy _ with
    | false => exact .inr ⟨rfl, [], rfl⟩
    | true =>
      simp only [if_true, Bool.true_and, Interpreter.str]
      split
      · exact .inl ⟨decide_eq_true ‹_›, rfl⟩
      · exact .inr ⟨decide_eq_false ‹_›, _, rfl⟩

theorem b64decode_eq_ok {v : Json} {bytes : List UInt8} (h : b64decode v = .ok bytes) :
    ∃ config data, v = .string config ∧ Codec.asciiEncode config = .ok data ∧ Base64.decode true data = some bytes := by
  unfold b64decode at h
  split at h
  · rename_i s
    cases hdata : Codec.asciiEncode s with
    | error raised => rw [hdata] at h; cases h
    | ok data =>
      rw [hdata] at h
      cases hbytes : Base64.decode true data with
      | none => simp only [hbytes] at h; cases h
      | some out =>
        simp only [hbytes] at h
        exact ⟨s, data, rfl, hdata, hbytes.trans (congrArg some (Except.ok.inj h))⟩
  · cases h

/-- The key is there for any config that is UTF-8 and not too long, and is made of just its bytes. -/
theorem vpnUrl_eq_ok {z : Zlib} {bytes : List UInt8} {r : Option Str} (h : vpnUrl z bytes = .ok r) :
    (∃ t, Utf8.decode bytes = some t) ∧ bytes.length < 2 ^ 32 ∧ (bytes = [] → r = none) ∧
      (bytes ≠ [] → ∃ t url, Utf8.encode t = some bytes ∧ AmneziaCodec.encodeVpnUrl z t = .ok url ∧ r = some url) := by
  unfold vpnUrl at h
  split at h
  · rename_i hnil
    subst hnil
    exact ⟨⟨[], rfl⟩, by decide, fun _ => (Except.ok.inj h).symm, fun hne => absurd rfl hne⟩
  · rename_i hne
    cases hdecode : Utf8.decode bytes with
    | none =>
      rw [Codec.utf8Decode, hdecode] at h
      cases h
    | some t =>
      have hencode := Utf8.encode_of_decode hdecode
      rw [Codec.utf8Decode, hdecode] at h
      change ((AmneziaCodec.encodeVpnUrl z (t.map Char.toNat)).map some).mapError _ = _ at h
      cases hurl : AmneziaCodec.encodeVpnUrl z (t.map Char.toNat) with
      | error raised =>
        rw [hurl] at h
        cases h
      | ok url =>
        rw [hurl] at h
        exact ⟨⟨t, rfl⟩, AmneziaCodec.length_lt_of_encodeVpnUrl hencode hurl, fun hnil => absurd hnil hne,
          fun _ => ⟨_, url, hencode, hurl, (Except.ok.inj h).symm⟩⟩

theorem exists_vpnUrl (z : Zlib) {bytes : List UInt8} {t : Text} (h : Utf8.decode bytes = some t)
    (hlen : bytes.length < 2 ^ 32) : ∃ r, vpnUrl z bytes = .ok r := by
  unfold vpnUrl
  split
  · exact ⟨none, rfl⟩
  · rw [Codec.utf8Decode, h]
    obtain ⟨url, hurl⟩ := AmneziaCodec.exists_encodeVpnUrl z (Utf8.encode_of_decode h) hlen
    change ∃ r, ((AmneziaCodec.encodeVpnUrl z (t.map Char.toNat)).map some).mapError _ = .ok r
    rw [hurl]
    exact ⟨_, rfl⟩

/-! ### The peer -/

section Peer

variable {z : Zlib} {safeLabel : Str} {data : List (Str × Json)}

theorem provisionedPeer_inv {peer : ProvisionedPeer} (h : provisionedPeer z safeLabel data = .ok peer) :
    ∃ config, data.lookup (text "peer_id") = some (.string peer.externalId) ∧
      matchesIdentifier peer.externalId = true ∧
      (data.lookup (text "label")).getD (.string safeLabel) = .string peer.label ∧
      matchesIdentifier peer.label = true ∧ peer.configFilename = peer.label ++ text ".conf" ∧
      data.lookup (text "config_b64") = some config ∧ b64decode config = .ok peer.configBytes ∧
      vpnUrl z peer.configBytes = .ok peer.vpnUrl := by
  unfold provisionedPeer at h
  obtain ⟨id, hid, h₁⟩ := Except.bind_eq_ok.mp h
  obtain ⟨peerId, hpeerId, h₂⟩ := Except.bind_eq_ok.mp h₁
  obtain ⟨label, hlabel, h₃⟩ := Except.bind_eq_ok.mp h₂
  obtain ⟨config, hconfig, h₄⟩ := Except.bind_eq_ok.mp h₃
  obtain ⟨bytes, hbytes, h₅⟩ := Except.bind_eq_ok.mp h₄
  obtain ⟨url, hurl, h₆⟩ := Except.bind_eq_ok.mp h₅
  obtain rfl := Except.ok.inj h₆
  obtain ⟨rfl, hmatch⟩ := sanitizeIdentifier_eq_ok.mp hpeerId
  obtain ⟨hget, hmatch'⟩ := sanitizeIdentifier_eq_ok.mp hlabel
  exact ⟨config, item_eq_ok.mp hid, hmatch, hget, hmatch', rfl, item_eq_ok.mp hconfig, hbytes, hurl⟩

theorem provisionedPeer_eq_ok {peerId label : Str} {config : Json} {bytes : List UInt8} {url : Option Str}
    (hid : data.lookup (text "peer_id") = some (.string peerId)) (hpeerId : matchesIdentifier peerId = true)
    (hget : (data.lookup (text "label")).getD (.string safeLabel) = .string label)
    (hlabel : matchesIdentifier label = true) (hconfig : data.lookup (text "config_b64") = some config)
    (hbytes : b64decode config = .ok bytes) (hurl : vpnUrl z bytes = .ok url) :
    provisionedPeer z safeLabel data = .ok ⟨peerId, label, label ++ text ".conf", bytes, url⟩ := by
  unfold provisionedPeer
  rw [item_eq_ok.mpr hid, item_eq_ok.mpr hconfig, hget]
  simp only [bind, Except.bind, sanitizeIdentifier_eq_ok.mpr ⟨rfl, hpeerId⟩, sanitizeIdentifier_eq_ok.mpr ⟨rfl, hlabel⟩,
    hbytes, hurl]
  rfl

theorem provisionedPeer_iff {raw : List UInt8}
    (hraw : ∀ config, data.lookup (text "config_b64") = some (.string config) → Delivers raw config) :
    OnlyData z raw ((provisionedPeer z safeLabel data).mapError fun _ => .retryable .malformed) ↔
      NoNewline safeLabel data := by
  constructor
  · intro h peerId label config bytes t hid hget hconfig hbytes hutf8 hlen hpeerId hlabel
    obtain ⟨url, hurl⟩ := exists_vpnUrl z hutf8 hlen
    rw [provisionedPeer_eq_ok hid hpeerId hget hlabel hconfig hbytes hurl] at h
    exact ⟨(isIdentifier_iff hpeerId).mp (Sound.externalId h), (isIdentifier_iff hlabel).mp (Sound.label h)⟩
  · intro h
    cases hpeer : provisionedPeer z safeLabel data with
    | error raised => trivial
    | ok peer =>
      obtain ⟨config, hid, hpeerId, hget, hlabel, hfile, hconfig, hbytes, hurl⟩ := provisionedPeer_inv hpeer
      obtain ⟨⟨t, hutf8⟩, hlen, hnone, hsome⟩ := vpnUrl_eq_ok hurl
      obtain ⟨hid', hlabel'⟩ := h _ _ config _ t hid hget hconfig hbytes hutf8 hlen hpeerId hlabel
      obtain ⟨s, ascii, rfl, hascii, hdecode⟩ := b64decode_eq_ok hbytes
      exact {
        externalId := (isIdentifier_iff hpeerId).mpr hid'
        label := (isIdentifier_iff hlabel).mpr hlabel'
        filename := hfile
        config := ⟨s, ascii, hraw s hconfig, hascii, hdecode⟩
        utf8 := ⟨t, hutf8⟩
        noUrl := hnone
        url := hsome }

end Peer

/-! ### The reply -/

/-- What `create_peer` makes of what was read. -/
def outcome (z : Zlib) (safeLabel : Str) : Except Raised Reply → Except Raised ProvisionedPeer
  | .ok reply =>
    if reply.exitCode ≠ 0 then .error (classifyFailure reply.exitCode reply.error)
    else (provisionedPeer z safeLabel reply.result).mapError fun _ => .retryable .malformed
  | .error raised => .error (malformed raised)

theorem createPeer_eq {py : Interpreter} {z : Zlib} {telegramUserId : ℤ} {subscriptionId : Uuid} {slug safeLabel : Str}
    {raw : List UInt8} (hlabel : requestLabel telegramUserId subscriptionId slug = .ok safeLabel)
    (hlen : raw.length ≤ maxResponseBytes) :
    createPeer py z telegramUserId subscriptionId slug raw = outcome z safeLabel (readReply py raw) := by
  unfold createPeer
  rw [hlabel, runChecked, call, if_neg (Nat.not_lt.mpr hlen)]
  cases readReply py raw with
  | error raised => rfl
  | ok reply =>
    simp only [outcome, bind, Except.bind, Except.mapError]
    by_cases hcode : reply.exitCode = 0
    · rw [if_neg (not_not.mpr hcode), if_neg (not_not.mpr hcode)]
      rfl
    · rw [if_pos hcode, if_pos hcode]
      rfl

theorem onlyData_classifyFailure (z : Zlib) (raw : List UInt8) (exitCode : ℤ) (error : Str) :
    OnlyData z raw (.error (classifyFailure exitCode error)) := by
  unfold classifyFailure
  dsimp only
  generalize (if Codec.strip error = [] then _ else Codec.strip error) = errMsg
  split <;> trivial

theorem readResponse_of_none {py : Interpreter} {response : List (Str × Json)}
    (hcode : response.lookup (text "exit_code") = none) : readResponse py (.object response) = .error .key := by
  rw [readResponse, item, hcode]
  rfl

section Response

variable {py : Interpreter} {response : List (Str × Json)} {exitCode : Json} {raised : Raised} {n : ℤ} {error : Str}

theorem readResponse_of_toInt (hcode : response.lookup (text "exit_code") = some exitCode)
    (hint : toInt exitCode = .error raised) : readResponse py (.object response) = .error raised := by
  rw [readResponse, item, hcode, Option.elim_some]
  simp only [bind, Except.bind, hint]

theorem readResponse_of_errorText (hcode : response.lookup (text "exit_code") = some exitCode)
    (hint : toInt exitCode = .ok n) (herror : errorText py response = .error raised) :
    readResponse py (.object response) = .error raised := by
  rw [readResponse, item, hcode, Option.elim_some]
  simp only [bind, Except.bind, hint, herror]

theorem readResponse_of_ok (hcode : response.lookup (text "exit_code") = some exitCode) (hint : toInt exitCode = .ok n)
    (herror : errorText py response = .ok error) :
    readResponse py (.object response) = match (response.lookup (text "result")).getD (.object []) with
      | .object result => .ok ⟨n, result, error⟩
      | _ => .error .value := by
  rw [readResponse, item, hcode, Option.elim_some]
  simp only [bind, Except.bind, hint, herror]
  rfl

end Response

/-- Only a reply of success has its result read. -/
theorem result_iff {z : Zlib} {safeLabel : Str} {raw : List UInt8} {t : Text} {response : List (Str × Json)}
    (hutf8 : Utf8.decode raw = some t) (hparse : Json.parse t = some (.object response)) (n : ℤ) (error : Str) :
    OnlyData z raw (outcome z safeLabel (match (response.lookup (text "result")).getD (.object []) with
      | .object result => .ok ⟨n, result, error⟩
      | _ => .error .value)) ↔
      (n = 0 → ∀ data, response.lookup (text "result") = some (.object data) → NoNewline safeLabel data) := by
  have hread (data : List (Str × Json)) : OnlyData z raw (outcome z safeLabel (.ok ⟨n, data, error⟩)) ↔
      (n = 0 → OnlyData z raw ((provisionedPeer z safeLabel data).mapError fun _ => .retryable .malformed)) := by
    by_cases hn : n = 0
    · rw [outcome, if_neg (not_not.mpr hn)]
      exact ⟨fun h _ => h, fun h => h hn⟩
    · rw [outcome, if_pos hn]
      exact iff_of_true (onlyData_classifyFailure z raw n error) fun h => absurd h hn
  cases hresult : response.lookup (text "result") with
  | none =>
    rw [Option.getD_none, hread]
    exact iff_of_true (fun _ => trivial) fun _ data h => by cases h
  | some v =>
    rw [Option.getD_some]
    cases v with
    | object data =>
      simp only [hread, Option.some.injEq, Json.object.injEq, forall_eq']
      apply forall_congr'
      intro _
      exact provisionedPeer_iff fun config hconfig => ⟨t, response, data, hutf8, hparse, hresult, hconfig⟩
    | null | bool | number | string | array => exact iff_of_true trivial fun _ data h => by cases h

theorem readResponse_iff {py : Interpreter} {z : Zlib} {safeLabel : Str} {raw : List UInt8} {t : Text}
    {response : List (Str × Json)} (hutf8 : Utf8.decode raw = some t)
    (hparse : Json.parse t = some (.object response)) :
    OnlyData z raw (outcome z safeLabel (readResponse py (.object response))) ↔
      HarmlessResponse py safeLabel response := by
  unfold HarmlessResponse
  cases hcode : response.lookup (text "exit_code") with
  | none =>
    rw [readResponse_of_none hcode]
    exact iff_of_true trivial fun exitCode h => by cases h
  | some exitCode =>
    simp only [Option.some.injEq, forall_eq']
    obtain ⟨hinf, hint⟩ | ⟨hinf, ⟨n, hint⟩ | hint | hint⟩ := toInt_cases exitCode
    · rw [readResponse_of_toInt hcode hint, hinf]
      exact iff_of_false id fun h => Bool.noConfusion h.1
    · simp only [hint, hinf, true_and, Except.ok.injEq, forall_eq']
      obtain ⟨hdeep, herror⟩ | ⟨hdeep, error, herror⟩ := errorText_cases py response
      · rw [readResponse_of_errorText hcode hint herror, hdeep]
        exact iff_of_false id fun h => Bool.noConfusion h.1
      · rw [readResponse_of_ok hcode hint herror]
        simp only [hdeep, true_and]
        exact result_iff hutf8 hparse n error
    · rw [readResponse_of_toInt hcode hint]
      exact iff_of_true trivial ⟨hinf, fun n h => by rw [hint] at h; cases h⟩
    · rw [readResponse_of_toInt hcode hint]
      exact iff_of_true trivial ⟨hinf, fun n h => by rw [hint] at h; cases h⟩

theorem readReply_eq (py : Interpreter) {raw : List UInt8} {t : Text} (hutf8 : Utf8.decode raw = some t) :
    readReply py raw =
      if py.nesting < Json.nesting t then .error .recursion
      else (Json.parse t).elim (.error .value) (readResponse py) := by
  rw [readReply, hutf8, Option.map_some, Json.loads_eq]
  by_cases hdeep : py.nesting < Json.nesting t
  · rw [if_pos hdeep, if_pos hdeep]
  · rw [if_neg hdeep, if_neg hdeep]
    cases Json.parse t <;> rfl

/-- Every reply to a request that was sent is only data, but for one that nests beyond what the interpreter
reads or prints, has an infinite exit code, or is accepted with a newline at the end of a name. -/
theorem createPeer_onlyData_iff (py : Interpreter) (z : Zlib) {telegramUserId : ℤ} {subscriptionId : Uuid}
    {slug safeLabel : Str} (hlabel : requestLabel telegramUserId subscriptionId slug = .ok safeLabel)
    (raw : List UInt8) :
    OnlyData z raw (createPeer py z telegramUserId subscriptionId slug raw) ↔ Harmless py safeLabel raw := by
  by_cases hlen : raw.length ≤ maxResponseBytes
  · rw [createPeer_eq hlabel hlen]
    cases hutf8 : Utf8.decode raw with
    | none =>
      rw [readReply, hutf8]
      exact iff_of_true trivial fun t _ h => by cases hutf8.symm.trans h
    | some t =>
      have hharmless : Harmless py safeLabel raw ↔ Json.nesting t ≤ py.nesting ∧
          ∀ response, Json.parse t = some (.object response) → HarmlessResponse py safeLabel response := by
        simp only [Harmless, hutf8, hlen, true_imp_iff, Option.some.injEq, forall_eq']
      rw [hharmless, readReply_eq py hutf8]
      by_cases hdeep : py.nesting < Json.nesting t
      · rw [if_pos hdeep]
        exact iff_of_false id fun h => Nat.not_lt.mpr h.1 hdeep
      rw [if_neg hdeep, and_iff_right (Nat.not_lt.mp hdeep)]
      cases hparse : Json.parse t with
      | none => exact iff_of_true trivial fun response h => by cases h
      | some v =>
        cases v with
        | object response =>
          simp only [Option.elim_some, readResponse_iff hutf8 hparse, Option.some.injEq, Json.object.injEq, forall_eq']
        | null | bool | number | string | array => exact iff_of_true trivial fun response h => by cases h
  · have hlarge : createPeer py z telegramUserId subscriptionId slug raw = .error (.retryable .tooLarge) := by
      rw [createPeer, hlabel, runChecked, call, if_pos (Nat.not_le.mp hlen)]
      rfl
    rw [hlarge]
    exact iff_of_true trivial fun t h => absurd h hlen

section Runs

/-- An interpreter with the usual limits. -/
def usualInterpreter : Interpreter := ⟨990, 980, fun _ => []⟩

/-- Nothing is deflated. -/
def noZlib : Zlib := ⟨fun data _ => data, some⟩

def firstUuid : Uuid := ⟨1, by decide⟩

def replyBytes (s : String) : List UInt8 := s.toList.map fun c => UInt8.ofNat c.toNat

/-- A peer with a short config. -/
def acceptedText : String :=
  "\x7b\"exit_code\": 0, \"result\": \x7b\"peer_id\": \"user_1\", \"config_b64\": \"aGk=\"\x7d\x7d"

def acceptedResult : List (Str × Json) :=
  [(text "peer_id", .string (text "user_1")), (text "config_b64", .string (text "aGk="))]

/-- The reply is accepted, and what comes of it is only data. -/
theorem createPeer_onlyData_accepted :
    (createPeer usualInterpreter noZlib 1 firstUuid (text "de-1") (replyBytes acceptedText)).isOk = true ∧
      OnlyData noZlib (replyBytes acceptedText)
        (createPeer usualInterpreter noZlib 1 firstUuid (text "de-1") (replyBytes acceptedText)) := by
  have hlabel : requestLabel 1 firstUuid (text "de-1") = .ok (text "user_1_00000000_de-1") := rfl
  refine ⟨by decide +kernel, ?_⟩
  refine (createPeer_onlyData_iff usualInterpreter noZlib hlabel (replyBytes acceptedText)).mpr fun t _ ht => ?_
  have hutf8 : Utf8.decode (replyBytes acceptedText) = some acceptedText.toList := by decide +kernel
  obtain rfl : acceptedText.toList = t := Option.some.inj (hutf8.symm.trans ht)
  refine ⟨by decide +kernel, fun response hresponse exitCode hcode => ?_⟩
  have hparse : Json.parse acceptedText.toList =
      some (.object [(text "exit_code", .number ['0']), (text "result", .object acceptedResult)]) := by rfl
  obtain rfl := Json.object.inj (Option.some.inj (hparse.symm.trans hresponse))
  obtain rfl : Json.number ['0'] = exitCode := Option.some.inj hcode
  refine ⟨by decide +kernel, fun n _ => ⟨by decide +kernel, fun _ data hdata => ?_⟩⟩
  obtain rfl : acceptedResult = data := Json.object.inj (Option.some.inj hdata)
  intro peerId label config bytes t hpeer hname _ _ _ _ _ _
  obtain rfl : text "user_1" = peerId := Json.string.inj (Option.some.inj hpeer)
  obtain rfl : text "user_1_00000000_de-1" = label := Json.string.inj hname
  decide

/-- All in order but for the newline at the end of the client's name. -/
def newlineReply : List UInt8 :=
  replyBytes "\x7b\"exit_code\": 0, \"result\": \x7b\"peer_id\": \"user_1\\n\", \"config_b64\": \"\"\x7d\x7d"

theorem createPeer_newlineReply : createPeer usualInterpreter noZlib 1 firstUuid (text "de-1") newlineReply =
    .ok ⟨text "user_1\n", text "user_1_00000000_de-1", text "user_1_00000000_de-1.conf", [], none⟩ := by
  decide +kernel

def infiniteReply : List UInt8 := replyBytes "\x7b\"exit_code\": 1e400\x7d"

theorem createPeer_infiniteReply :
    createPeer usualInterpreter noZlib 1 firstUuid (text "de-1") infiniteReply = .error .overflow := by
  decide +kernel

/-- A peer with a newline in its name, and an error that no caller expects. -/
theorem not_onlyData :
    ¬ OnlyData noZlib newlineReply (createPeer usualInterpreter noZlib 1 firstUuid (text "de-1") newlineReply) ∧
      ¬ OnlyData noZlib infiniteReply (createPeer usualInterpreter noZlib 1 firstUuid (text "de-1") infiniteReply) := by
  rw [createPeer_newlineReply, createPeer_infiniteReply]
  refine ⟨fun h => ?_, id⟩
  have hid := Sound.externalId h
  revert hid
  decide

end Runs

end AmneziaVpnBot.Provision
