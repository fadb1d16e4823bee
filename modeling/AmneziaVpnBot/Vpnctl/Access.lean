import AmneziaVpnBot.Vpnctl.Replies

/-! Only the bot gets through: what `check_caller` lets pass, said without its order of checks.
A TCP caller that is turned away changes nothing, and its reply says nothing that it did not
know, since it is worked out from its address and token alone. -/

namespace AmneziaVpnBot.Vpnctl

open Text

/-! ### Lists in the settings -/

theorem mem_of_mem_splitOn {sep c : Char} {t part : Text} (hpart : part ∈ t.splitOn sep) (hc : c ∈ part) : c ∈ t := by
  induction t generalizing part with
  | nil =>
    rw [List.splitOn_nil, List.mem_singleton] at hpart
    simp [hpart] at hc
  | cons d t ih =>
    rw [List.splitOn_cons_eq_if_modifyHead] at hpart
    split at hpart
    · rcases List.mem_cons.mp hpart with rfl | hpart
      · cases hc
      · exact List.mem_cons_of_mem _ (ih hpart hc)
    · cases hparts : t.splitOn sep with
      | nil => simp [hparts] at hpart
      | cons p ps =>
        rw [hparts] at ih hpart
        rcases List.mem_cons.mp hpart with rfl | hpart
        · exact (List.mem_cons.mp hc).elim (fun h => h ▸ List.mem_cons_self) fun h =>
            List.mem_cons_of_mem _ (ih List.mem_cons_self h)
        · exact List.mem_cons_of_mem _ (ih (List.mem_cons_of_mem _ hpart) hc)

theorem mem_of_mem_strip {t : Text} {c : Char} (h : c ∈ strip t) : c ∈ t :=
  List.dropWhile_sublist _ |>.mem ((List.rdropWhile_prefix _ _).sublist.mem h)

theorem mem_entries {list entry : Text} :
    entry ∈ entries list ↔ entry ≠ [] ∧ ∃ part ∈ list.splitOn ',', strip part = entry := by
  simp only [entries, List.mem_filter, List.mem_map, decide_eq_true_eq]
  exact and_comm

theorem mem_of_mem_entries {list entry : Text} (h : entry ∈ entries list) {c : Char} (hc : c ∈ entry) : c ∈ list := by
  obtain ⟨-, part, hpart, rfl⟩ := mem_entries.mp h
  exact mem_of_mem_splitOn hpart (mem_of_mem_strip hc)

/-! ### Digests -/

theorem lower_hexdigest (digest : List UInt8) : lower (hexdigest digest) = hexdigest digest := by
  have hdigit : ∀ n < 16, lowerChar (Nat.digitChar n) = Nat.digitChar n := by decide
  have hsame : ∀ c ∈ hexdigest digest, lowerChar c = id c := by
    intro c hc
    obtain ⟨b, -, hb⟩ := List.mem_flatMap.mp hc
    have hlt := b.toNat_lt
    simp only [List.mem_cons, List.not_mem_nil, or_false] at hb
    rcases hb with rfl | rfl
    · exact hdigit _ (by omega)
    · exact hdigit _ (by omega)
  rw [lower, List.map_congr_left hsame, List.map_id]

theorem lowerChar_ascii {c : Char} (h : c.toNat < 128) : (lowerChar c).toNat < 128 := by
  have hall : ∀ n < 128, (lowerChar (Char.ofNat n)).toNat < 128 := by decide
  have hc := hall c.toNat h
  rwa [Char.ofNat_toNat] at hc

theorem isAscii_expectedHashes {cfg : Config} (h : isAscii (cfg.get "CLIENT_TOKEN_SHA256") = true) :
    (expectedHashes cfg).all isAscii = true := by
  rw [List.all_eq_true]
  intro hash hhash
  obtain ⟨entry, hentry, rfl⟩ := List.mem_map.mp hhash
  rw [isAscii, List.all_eq_true] at h ⊢
  intro c hc
  obtain ⟨d, hd, rfl⟩ := List.mem_map.mp hc
  have hascii := h d (mem_of_mem_entries hentry hd)
  rw [decide_eq_true_eq] at hascii ⊢
  exact lowerChar_ascii hascii

/-! ### Who may call -/

/-- The address is one of `ALLOWED_CLIENTS`. -/
def IsAllowed (cfg : Config) (peer : Address) : Prop :=
  ∃ part ∈ (cfg.get "ALLOWED_CLIENTS").splitOn ',', parseAddress (strip part) = some peer

/-- The token is a string whose digest is one of `CLIENT_TOKEN_SHA256`, in either case. -/
def HasToken (sha256 : List UInt8 → List UInt8) (cfg : Config) (token : Option Json) : Prop :=
  ∃ s bytes, token = some (.string s) ∧ Utf8.encode s = some bytes ∧
    ∃ hash ∈ entries (cfg.get "CLIENT_TOKEN_SHA256"), lower (hexdigest (sha256 bytes)) = lower hash

/-- No tag is required, or one that is stands in a successful answer of `tailscale whois`. -/
def HasTag (w : World) (cfg : Config) (peer : Address) : Prop :=
  entries (cfg.get "REQUIRED_TAILSCALE_TAGS") = [] ∨
    canSplit (cfg.get "TAILSCALE_BIN") = true ∧
      ∃ stdout stderr tags, w.whois peer.text = .exited 0 stdout stderr ∧ nodeTags w.whoisNesting stdout = .ok tags ∧
        ∃ tag ∈ entries (cfg.get "REQUIRED_TAILSCALE_TAGS"), Json.string (tag.map Char.toNat) ∈ tags

/-- The caller is not TCP, or its address, its token and its node are good. -/
def Trusted (w : World) (cfg : Config) (token : Option Json) : Caller → Prop
  | .stdin _ | .unix _ => True
  | .tcp _ peername => ∃ address, peername.bind parseAddress = some address ∧ IsAllowed cfg address.unmapped ∧
      HasToken w.sha256 cfg token ∧ HasTag w cfg address.unmapped

theorem mem_allowedClients {cfg : Config} {peer : Address} : peer ∈ allowedClients cfg ↔ IsAllowed cfg peer := by
  simp only [allowedClients, List.mem_filterMap, IsAllowed]

theorem lower_eq_nil {t : Text} : lower t = [] ↔ t = [] := List.map_eq_nil_iff

theorem checkToken_eq_ok {w : World} {cfg : Config} (h : isAscii (cfg.get "CLIENT_TOKEN_SHA256") = true)
    (token : Option Json) : checkToken w cfg token = .ok () ↔ HasToken w.sha256 cfg token := by
  have hmem : ∀ digest : Text, digest ∈ expectedHashes cfg ↔
      ∃ hash ∈ entries (cfg.get "CLIENT_TOKEN_SHA256"), lower hash = digest := fun digest => List.mem_map
  have hempty : [] ∉ expectedHashes cfg := by
    rw [hmem]
    rintro ⟨hash, hhash, hlower⟩
    exact (mem_entries.mp hhash).1 (lower_eq_nil.mp hlower)
  have hdigest : ∀ digest, tokenDigest w.sha256 token = some digest ∧ digest ∈ expectedHashes cfg →
      HasToken w.sha256 cfg token := by
    rintro digest ⟨htoken, hd⟩
    unfold tokenDigest at htoken
    split at htoken
    · obtain ⟨bytes, hbytes, rfl⟩ := Option.map_eq_some_iff.mp htoken
      obtain ⟨hash, hhash, hlower⟩ := (hmem _).mp hd
      exact ⟨_, bytes, rfl, hbytes, hash, hhash, by rw [lower_hexdigest, hlower]⟩
    · cases htoken
      exact absurd hd hempty
  have hascii := isAscii_expectedHashes h
  simp only [checkToken, hascii, if_true]
  constructor
  · intro hok
    split at hok
    · cases hok
    · split at hok
      · cases hok
      · rename_i digest htoken
        split at hok
        · rename_i hd
          exact hdigest digest ⟨htoken, List.contains_iff_mem.mp hd⟩
        · cases hok
  · rintro ⟨s, bytes, rfl, hbytes, hash, hhash, hlower⟩
    rw [lower_hexdigest] at hlower
    have hd : hexdigest (w.sha256 bytes) ∈ expectedHashes cfg := (hmem _).mpr ⟨hash, hhash, hlower.symm⟩
    rw [if_neg (List.ne_nil_of_mem hd), tokenDigest, hbytes]
    exact if_pos (List.contains_iff_mem.mpr hd)

theorem shares_iff {required : List Text} {tags : List Json} :
    shares required tags = true ↔ ∃ tag ∈ required, Json.string (tag.map Char.toNat) ∈ tags := by
  simp only [shares, List.any_eq_true]
  constructor
  · rintro ⟨tag, htag, v, hv, heq⟩
    cases v with
    | string s =>
      rw [decide_eq_true_eq] at heq
      exact ⟨tag, htag, heq ▸ hv⟩
    | null | bool | number | array | object => cases heq
  · rintro ⟨tag, htag, hv⟩
    exact ⟨tag, htag, _, hv, decide_eq_true rfl⟩

theorem checkTailscaleTags_eq_ok {w : World} {cfg : Config} {peer : Address} :
    checkTailscaleTags w cfg peer = .ok () ↔ HasTag w cfg peer := by
  rw [checkTailscaleTags, HasTag]
  by_cases hrequired : entries (cfg.get "REQUIRED_TAILSCALE_TAGS") = []
  · rw [if_pos hrequired]
    exact iff_of_true rfl (.inl hrequired)
  rw [if_neg hrequired, or_iff_right hrequired]
  by_cases hsplit : canSplit (cfg.get "TAILSCALE_BIN") = true
  · rw [if_pos hsplit, and_iff_right hsplit]
    cases hwhois : w.whois peer.text with
    | failed => simp
    | exited code stdout stderr =>
      dsimp only
      by_cases hcode : code = 0
      · subst hcode
        rw [if_neg (by simp)]
        cases htags : nodeTags w.whoisNesting stdout with
        | error fault => simp [bind, Except.bind, htags]
        | ok tags =>
          have hok : ∀ f : List Json → Except Fault Unit, (.ok tags >>= f) = f tags := fun _ => rfl
          rw [hok]
          by_cases hshares : shares (entries (cfg.get "REQUIRED_TAILSCALE_TAGS")) tags = true
          · rw [if_pos hshares]
            exact iff_of_true rfl ⟨stdout, stderr, tags, rfl, htags, shares_iff.mp hshares⟩
          · rw [if_neg hshares]
            refine iff_of_false (by split <;> rintro ⟨⟩) ?_
            rintro ⟨stdout', stderr', tags', heq, htags', hmem⟩
            cases heq
            rw [htags] at htags'
            cases htags'
            exact hshares (shares_iff.mpr hmem)
      · rw [if_pos hcode]
        refine iff_of_false (by rintro ⟨⟩) ?_
        rintro ⟨_, _, _, heq, -⟩
        cases heq
        exact hcode rfl
  · rw [if_neg hsplit]
    exact iff_of_false (by rintro ⟨⟩) fun h => hsplit h.1

theorem checkCaller_eq_ok {w : World} {cfg : Config} (h : isAscii (cfg.get "CLIENT_TOKEN_SHA256") = true)
    (caller : Caller) (r : Request) : checkCaller w cfg caller (some r) = .ok () ↔ Trusted w cfg r.token caller := by
  cases caller with
  | stdin bytes => exact iff_of_true rfl trivial
  | unix socket => exact iff_of_true rfl trivial
  | tcp socket peername =>
    rw [checkCaller, Trusted]
    cases peername.bind parseAddress with
    | none => simp
    | some address =>
      dsimp only
      simp only [Option.some.injEq, exists_eq_left']
      by_cases hallowed : IsAllowed cfg address.unmapped
      · rw [if_pos (mem_allowedClients.mpr hallowed), Except.bind_eq_ok, and_iff_right hallowed, Option.bind_some,
          ← checkToken_eq_ok h, ← checkTailscaleTags_eq_ok]
        exact ⟨by rintro ⟨_, h⟩; exact h, fun h => ⟨(), h⟩⟩
      · rw [if_neg (mem_allowedClients.not.mpr hallowed)]
        exact iff_of_false (by rintro ⟨⟩) fun h => hallowed h.1

/-! ### Two requests -/

/-- `handle` is called with the request. -/
def Reaches (w : World) (file : Option Text) (caller : Caller) (r : Request) : Prop :=
  ∃ cfg, loadSettings file = .ok cfg ∧ accept w cfg caller = .ok r

theorem accept_of_ok {w : World} {caller : Caller} {r : Request} (h : readRequest w.nesting caller = .ok r)
    (cfg : Config) :
    accept w cfg caller = (checkCaller w cfg caller (some r)).map fun _ => r := by
  rw [accept, h]
  dsimp only
  cases checkCaller w cfg caller (some r) <;> rfl

theorem accept_eq_ok {w : World} {cfg : Config} (h : isAscii (cfg.get "CLIENT_TOKEN_SHA256") = true) {caller : Caller}
    {r : Request} :
    accept w cfg caller = .ok r ↔ readRequest w.nesting caller = .ok r ∧ Trusted w cfg r.token caller := by
  cases hread : readRequest w.nesting caller with
  | error fault =>
    refine iff_of_false ?_ fun h => nomatch h.1
    rw [accept, hread]
    cases fault with
    | raised => rintro ⟨⟩
    | error bad =>
      dsimp only
      cases checkCaller w cfg caller none <;> rintro ⟨⟩
  | ok r' =>
    rw [accept_of_ok hread, Except.ok.injEq]
    have hcheck := checkCaller_eq_ok (w := w) h caller r'
    cases hc : checkCaller w cfg caller (some r') with
    | ok u =>
      rw [hc] at hcheck
      constructor
      · rintro ⟨⟩
        exact ⟨rfl, hcheck.mp rfl⟩
      · rintro ⟨rfl, -⟩
        rfl
    | error fault =>
      rw [hc] at hcheck
      refine iff_of_false (by rintro ⟨⟩) ?_
      rintro ⟨rfl, htrusted⟩
      cases hcheck.mpr htrusted

theorem reaches_iff {file : Option Text} {cfg : Config} (hcfg : loadSettings file = .ok cfg)
    (h : isAscii (cfg.get "CLIENT_TOKEN_SHA256") = true) {w : World} {caller : Caller} {r : Request} :
    Reaches w file caller r ↔ readRequest w.nesting caller = .ok r ∧ Trusted w cfg r.token caller := by
  rw [← accept_eq_ok h, Reaches, hcfg]
  simp only [Except.ok.injEq, exists_eq_left']

/-- What is turned away changes nothing. -/
theorem serve_of_not_reaches {w : World} {file : Option Text} {caller : Caller} (h : ∀ r, ¬ Reaches w file caller r)
    (s : Server) : (serve w file caller s).2 = s := by
  rw [serve]
  cases hcfg : loadSettings file with
  | error err => rfl
  | ok cfg =>
    dsimp only
    cases haccept : accept w cfg caller with
    | error fault => rfl
    | ok r => exact absurd ⟨cfg, hcfg, haccept⟩ (h r)

/-- The check of a TCP caller looks at its address and token, and at nothing a command meets. -/
theorem checkCaller_token {cfg : Config} {socket socket' : Socket} {peername : Option Text} {r r' : Request}
    (htoken : r.token = r'.token) (w : World) (e : Env) (now : ℕ) :
    checkCaller { w with env := e, now := now } cfg (.tcp socket' peername) (some r') =
      checkCaller w cfg (.tcp socket peername) (some r) := by
  rw [checkCaller, checkCaller, Option.bind_some, Option.bind_some, htoken]
  rfl

/-- A request gets through exactly if it is read and its caller may call; what does not get through
changes nothing; and turned away, a TCP caller gets the same reply to every request with its token. -/
theorem onlyTrusted {file : Option Text} {cfg : Config} (hcfg : loadSettings file = .ok cfg)
    (h : isAscii (cfg.get "CLIENT_TOKEN_SHA256") = true) (w : World) :
    (∀ caller r, Reaches w file caller r ↔ readRequest w.nesting caller = .ok r ∧ Trusted w cfg r.token caller) ∧
      (∀ caller s, (∀ r, ¬ Reaches w file caller r) → (serve w file caller s).2 = s) ∧
      ∀ socket socket' peername r r', readRequest w.nesting (.tcp socket peername) = .ok r →
        readRequest w.nesting (.tcp socket' peername) = .ok r' → r.token = r'.token →
        ¬ Reaches w file (.tcp socket peername) r → ∀ e now s s',
          (serve { w with env := e, now := now } file (.tcp socket' peername) s').1 =
            (serve w file (.tcp socket peername) s).1 := by
  refine ⟨fun caller r => reaches_iff hcfg h, fun caller s hno => serve_of_not_reaches hno s, ?_⟩
  intro socket socket' peername r r' hread hread' htoken hno e now s s'
  have haccept := accept_of_ok hread cfg
  have haccept' := accept_of_ok (w := { w with env := e, now := now }) hread' cfg
  rw [checkCaller_token htoken] at haccept'
  cases hcheck : checkCaller w cfg (.tcp socket peername) (some r) with
  | ok u =>
    rw [hcheck] at haccept
    exact absurd ⟨cfg, hcfg, haccept⟩ hno
  | error fault =>
    rw [hcheck] at haccept haccept'
    rw [serve_of_fault hcfg haccept, serve_of_fault hcfg haccept']

/-! ### A bot on another host -/

def secretHash : Text :=
  ["2BB80D53", "7B1DA3E3", "8BD30361", "AA855686", "BDE0EACD", "7162FEF6", "A25FE97B", "F527A25B"].flatMap String.toList

def clientList : Text := "not-an-ip, ".toList ++ "100.64.0.1".toList

def botFile : Text :=
  List.intercalate ['\n'] [
    "ALLOWED_CLIENTS".toList ++ " = ".toList ++ clientList,
    "CLIENT_TOKEN".toList ++ "_SHA256=0f,".toList ++ secretHash,
    "REQUIRED_TAILSCALE".toList ++ "_TAGS = tag:bot\n".toList]

def botConfig : Config :=
  [("REQUIRED_TAILSCALE_TAGS".toList, "tag:bot".toList), ("CLIENT_TOKEN_SHA256".toList, "0f,".toList ++ secretHash),
    ("ALLOWED_CLIENTS".toList, clientList)] ++ defaults

/-- `sha256` of the token `secret` -/
def secretDigest : List UInt8 :=
  [43, 184, 13, 83, 123, 29, 163, 227, 139, 211, 3, 97, 170, 133, 86, 134, 189, 224, 234, 205, 113, 98, 254, 246,
    162, 95, 233, 123, 245, 39, 162, 91]

def botWorld : World :=
  { smallWorld with
    sha256 := fun bytes => if bytes = utf8 "secret" then secretDigest else []
    whois := fun peer =>
      if peer = "100.64.0.1".toList then
        .exited 0 "\x7b\"Node\": \x7b\"Tags\": [\"tag:x\", \"tag:bot\"]\x7d\x7d".toList []
      else .failed }

def botSocket : Socket where
  chunks :=
    [utf8 "\x7b\"command\": \"get-config\", \"args\": \x7b\"peer_id\": ", utf8 "\"a\"\x7d, \"token\": \"secret\"\x7d\n"]
  ending := .stalled
  nonempty := by decide +kernel

def isText (t : String) : Json → Bool
  | .string s => s = str t
  | _ => false

theorem onlyTrusted_bot :
    ∃ r, Reaches botWorld (some botFile) (.tcp botSocket (some "::ffff:100.64.0.1".toList)) r := by
  have hread : (readRequest 900 (.tcp botSocket (some "::ffff:100.64.0.1".toList))).toOption.any
      (fun r => r.token.any (isText "secret")) = true := by
    decide +kernel
  obtain ⟨r, hr, htoken⟩ := (Option.any_eq_true _ _).mp hread
  obtain ⟨v, hv, hsecret⟩ := (Option.any_eq_true _ _).mp htoken
  have htags : (nodeTags 900 "\x7b\"Node\": \x7b\"Tags\": [\"tag:x\", \"tag:bot\"]\x7d\x7d".toList).toOption.any
      (shares (entries (botConfig.get "REQUIRED_TAILSCALE_TAGS"))) = true := by
    decide +kernel
  obtain ⟨tags, htags, hshares⟩ := (Option.any_eq_true _ _).mp htags
  have hallowed : (⟨.v4 1681915905, none⟩ : Address) ∈ allowedClients botConfig := by decide +kernel
  have hmem : secretHash ∈ entries (botConfig.get "CLIENT_TOKEN_SHA256") := by decide +kernel
  have hhas : HasToken botWorld.sha256 botConfig r.token := by
    cases v with
    | string s =>
      obtain rfl : s = str "secret" := of_decide_eq_true hsecret
      exact ⟨_, utf8 "secret", hv, by decide +kernel, _, hmem, by decide +kernel⟩
    | null | bool | number | array | object => cases hsecret
  have hnode : HasTag botWorld botConfig ⟨.v4 1681915905, none⟩ :=
    .inr ⟨by decide +kernel, _, _, tags, rfl, Except.eq_ok_of_toOption htags, shares_iff.mp hshares⟩
  have hcfg : loadSettings (some botFile) = .ok botConfig := by decide +kernel
  have hunmapped : Address.unmapped ⟨.v6 281472363659265, none⟩ = ⟨.v4 1681915905, none⟩ := by decide +kernel
  refine ⟨r,
    ((onlyTrusted hcfg (by decide +kernel) botWorld).1 _ r).mpr
      ⟨Except.eq_ok_of_toOption hr, ⟨.v6 281472363659265, none⟩, by decide +kernel, ?_⟩⟩
  rw [hunmapped]
  exact ⟨mem_allowedClients.mp hallowed, hhas, hnode⟩

end AmneziaVpnBot.Vpnctl
