import AmneziaVpnBot.Deploy.System
import AmneziaVpnBot.Wire.Calls

/-! The calls of the deployed bot, byte for byte. What the worker sees of a request and a reply on the wire is one of
the ends that a call has in the model of the deployment: it is answered, or its answer is lost. -/

namespace AmneziaVpnBot.Deploy

open Lifecycle (Failure)
open Provision (Call Outcome Raised codes)
open Vpnctl (Fault Result ServeError plainText)

/-! ### Names -/

theorem toString_int (z : ℤ) : (toString z).toList = intText z := by
  cases z with
  | ofNat n =>
    rw [intText, if_neg (by simp)]
    exact String.toList_ofList
  | negSucc n =>
    rw [intText, if_pos (Int.negSucc_lt_zero n)]
    simp [toString, Int.repr, Nat.repr]

theorem hexDigits_zero (k : ℕ) : hexDigits k 0 = List.replicate k 0 := by
  induction k with
  | zero => rfl
  | succ k ih => rw [hexDigits, Nat.zero_div, ih, List.replicate_succ']

/-- A number with zeros in front, in two ways. -/
theorem replicate_toDigits {k n : ℕ} (h : n < 16 ^ (k + 1)) :
    List.replicate (k + 1 - (Nat.toDigits 16 n).length) '0' ++ Nat.toDigits 16 n =
      (hexDigits (k + 1) n).map Nat.digitChar := by
  induction k generalizing n with
  | zero =>
    rw [Nat.toDigits_of_lt_base (by simpa using h)]
    simp [hexDigits, Nat.mod_eq_of_lt (show n < 16 by simpa using h)]
  | succ k ih =>
    rw [hexDigits, List.map_append]
    obtain hlt | hge := lt_or_ge n 16
    · rw [Nat.toDigits_of_lt_base hlt, Nat.div_eq_of_lt hlt, Nat.mod_eq_of_lt hlt, hexDigits_zero, List.map_replicate]
      rfl
    · have hdiv : n / 16 < 16 ^ (k + 1) := by
        rw [pow_succ] at h
        exact Nat.div_lt_of_lt_mul (by omega)
      rw [Nat.toDigits_of_base_le (by decide) hge, ← ih hdiv, List.length_append, List.length_singleton,
        Nat.add_sub_add_right, List.append_assoc]
      rfl

theorem take_hexDigits (k m n : ℕ) : (hexDigits (k + m) n).take k = hexDigits k (n / 16 ^ m) := by
  induction m generalizing n with
  | zero => simp [List.take_of_length_le]
  | succ m ih =>
    rw [Nat.add_succ, hexDigits, List.take_append_of_le_length (by simp), ih, Nat.div_div_eq_div_mul, pow_succ']

theorem take_hex (id : Uuid) : id.hex.take 8 = (hexDigits 8 id.hex8).map Nat.digitChar := by
  have htake : (hexDigits 32 id.value).take 8 = hexDigits 8 id.hex8 := by
    rw [show 32 = 8 + 24 by rfl, take_hexDigits, Uuid.hex8]
  rw [← htake]
  exact List.map_take.symm

theorem take_text (id : Uuid) : id.text.take 8 = id.hex.take 8 := by
  have hlen : (id.hex.take 8).length = 8 := by simp
  rw [Uuid.text]
  simp only [List.append_assoc, List.cons_append]
  rw [List.take_append_of_le_length hlen.ge, List.take_of_length_le hlen.le]

theorem hex8Text_hex8 (id : Uuid) : hex8Text id.hex8 = id.text.take 8 := by
  rw [take_text, take_hex, hex8Text, replicate_toDigits id.hex8_lt]

/-- The name a peer is asked for with. -/
theorem codes_nameText (telegramUserId : ℤ) (id : Uuid) (slug : String) :
    codes (nameText ⟨telegramUserId, id.hex8, slug⟩) =
      Provision.text "user_" ++ Provision.intText telegramUserId ++ Provision.text "_" ++
        (id.text.map Char.toNat).take 8 ++ Provision.text "_" ++ Provision.text slug := by
  have hline : "_".toList = ['_'] := rfl
  rw [nameText, hex8Text_hex8, ← toString_int]
  simp only [codes, List.map_append, List.map_cons, List.map_nil, List.map_take, Provision.intText,
    Provision.text, hline, List.append_assoc, List.cons_append, List.nil_append]

theorem isIdentifierChar_toNat (c : Char) : Provision.isIdentifierChar c.toNat = Vpnctl.isIdentifierChar c := by
  have hline : (c.toNat == 95) = (c == '_') := by
    rw [Bool.eq_iff_iff, beq_iff_eq, beq_iff_eq]
    exact ⟨fun h => Char.toNat_inj.mp h, fun h => h ▸ rfl⟩
  have hhyphen : (c.toNat == 45) = (c == '-') := by
    rw [Bool.eq_iff_iff, beq_iff_eq, beq_iff_eq]
    exact ⟨fun h => Char.toNat_inj.mp h, fun h => h ▸ rfl⟩
  rw [Provision.isIdentifierChar, Vpnctl.isIdentifierChar, Vpnctl.isLetter, Vpnctl.isDigit, hline, hhyphen]
  rw [Bool.or_comm (decide (65 ≤ c.toNat) && decide (c.toNat ≤ 90))]
  rfl

theorem isIdentifier_codes (t : Text) : Provision.isIdentifier (codes t) = Vpnctl.isIdentifier t := by
  have hempty : decide (1 ≤ t.length) = !t.isEmpty := by cases t <;> simp
  have hall : (codes t).all Provision.isIdentifierChar = t.all Vpnctl.isIdentifierChar := by
    rw [codes, List.all_map]
    exact congrArg t.all (funext isIdentifierChar_toNat)
  rw [Provision.isIdentifier, Vpnctl.isIdentifier, hall, codes, List.length_map, hempty]

/-- The check of a name is the same on either side. -/
theorem matchesIdentifier_codes (name : Text) : Provision.matchesIdentifier (codes name) = sanitized name := by
  have hend : Provision.endsInNewline (codes name) = decide (name.getLast? = some '\n') := by
    rw [Provision.endsInNewline, codes, List.getLast?_map, Bool.eq_iff_iff, beq_iff_eq, decide_eq_true_eq]
    cases name.getLast? with
    | none => simp
    | some c =>
      rw [Option.map_some, Option.some_inj, Option.some_inj]
      exact ⟨fun h => Char.toNat_inj.mp h, fun h => h ▸ rfl⟩
  rw [Provision.matchesIdentifier, sanitized, Vpnctl.beforeNewline, hend]
  by_cases h : name.getLast? = some '\n'
  · rw [if_pos (by simpa using h), if_pos h, ← isIdentifier_codes]
    exact congrArg Provision.isIdentifier List.map_dropLast.symm
  · rw [if_neg (by simpa using h), if_neg h, isIdentifier_codes]

/-! ### Calls -/

/-- The method that the worker calls for a job. -/
def callOf (jobType : JobType) (peer : PeerName) (id : Uuid) : Call :=
  match jobType with
  | .createPeer => .createPeer peer.telegramUserId id
  | .disablePeer => .disablePeer (codes (nameText peer))
  | .enablePeer => .enablePeer (codes (nameText peer))
  | .removePeer => .removePeer (codes (nameText peer))
  | .redeliverConfig => .getPeerConfig (codes (nameText peer))

/-- No job asks for a status. -/
theorem callOf_ne_status {jobType : JobType} {peer : PeerName} {id : Uuid} (p : Str) :
    callOf jobType peer id ≠ .getPeerStatus p := by
  cases jobType <;> rintro ⟨⟩

def ofCodes (s : Str) : String := String.ofList (plainText s)

/-- `str(e)`, where `other` is that of an error that is no failure of a command. -/
def raisedText (other : Raised → String) : Raised → String
  | .permanent message | .retryable (.failed message) => ofCodes message
  | raised => other raised

def isPermanent : Raised → Bool
  | .permanent _ => true
  | _ => false

/-- What the worker has of a call that ends so: the config, and what it records as the failure. -/
def workerSees {δ : Type} (other : Raised → String) : Except Raised (Outcome δ) → Option Text × Failure
  | .ok (.peer p) => (Utf8.decode p.configBytes, none)
  | .ok (.config configBytes) => (Utf8.decode configBytes, none)
  | .ok _ => (none, none)
  | .error raised => (none, some (raisedText other raised, !isPermanent raised))

/-- The text of a command's error in the bot; one that is not caught leaves no reply to read. -/
def describeOf (describe : ServeError → Text) (other : Raised → String) : Vpnctl.Error → String
  | .uncaught => other (.retryable .malformed)
  | err => raisedText other (Provision.classifyFailure err.exitCode (codes (describe (.command err))))

/-! ### Failures -/

theorem toNat_toLower (c : Char) : c.toLower.toNat = if 65 ≤ c.toNat ∧ c.toNat ≤ 90 then c.toNat + 32 else c.toNat := by
  have hiff : (c.val ≥ 'A'.val ∧ c.val ≤ 'Z'.val) ↔ 65 ≤ c.toNat ∧ c.toNat ≤ 90 := Iff.rfl
  unfold Char.toLower
  by_cases h : c.val ≥ 'A'.val ∧ c.val ≤ 'Z'.val
  · rw [dif_pos h, if_pos (hiff.mp h)]
    have := (hiff.mp h).2
    change (c.val + 32).toNat = _
    rw [UInt32.toNat_add]
    change (c.toNat + 32) % 2 ^ 32 = _
    omega
  · rw [dif_neg h, if_neg (mt hiff.mpr h)]

theorem lower_codes (t : Text) : Provision.lower (codes t) = codes (t.map Char.toLower) := by
  rw [Provision.lower, codes, codes, List.map_map, List.map_map]
  exact List.map_congr_left fun c _ => (toNat_toLower c).symm

theorem plainText_codes (t : Text) : plainText (codes t) = t := by
  rw [plainText, codes, List.map_map]
  exact List.map_id'' (fun c => Char.ofNat_toNat c) t

theorem codes_infix {t u : Text} : codes t <:+: codes u ↔ t <:+: u := by
  constructor
  · intro h
    have := h.map Char.ofNat
    rwa [← plainText, ← plainText, plainText_codes, plainText_codes] at this
  · exact fun h => h.map Char.toNat

theorem any_tails {t u : Text} : u.tails.any (t.isPrefixOf ·) = true ↔ t <:+: u := by
  rw [List.infix_iff_prefix_suffix, List.any_eq_true]
  simp only [List.mem_tails, List.isPrefixOf_iff_prefix]
  exact ⟨fun ⟨v, hv, ht⟩ => ⟨v, ht, hv⟩, fun ⟨v, ht, hv⟩ => ⟨v, hv, ht⟩⟩

/-- What is left without the blanks around it is still characters. -/
theorem strip_codes (t : Text) : ∃ u, Codec.strip (codes t) = codes u := by
  refine ⟨(t.dropWhile (Codec.isSpace ∘ Char.toNat)).rdropWhile (Codec.isSpace ∘ Char.toNat), ?_⟩
  rw [Codec.strip, codes, codes, List.dropWhile_map, List.rdropWhile, List.rdropWhile, ← List.map_reverse,
    List.dropWhile_map, ← List.map_reverse]

theorem exists_codes (n : ℤ) (message : Text) :
    ∃ t, (if Codec.strip (codes message) = [] then Provision.text "vpnctl failed with exit code " ++ Provision.intText n
      else Codec.strip (codes message)) = codes t := by
  split
  · exact ⟨"vpnctl failed with exit code ".toList ++ (toString n).toList, List.map_append.symm⟩
  · exact strip_codes message

/-- Both sides agree on which failures are worth another try. -/
theorem isRetryable_classify (n : ℕ) (message : Text) (other : Raised → String) :
    (!isPermanent (Provision.classifyFailure n (codes message))) =
      isRetryable n (raisedText other (Provision.classifyFailure n (codes message))) := by
  obtain ⟨t, ht⟩ := exists_codes n message
  have hcode : (n : ℤ) ∈ ([2, 3, 4] : List ℤ) ↔ n ∈ permanentExits := by simp [permanentExits]; omega
  have hexists : Provision.text "already exists" <:+: Provision.lower (codes t) ↔
      (t.map Char.toLower).tails.any ("already exists".toList.isPrefixOf ·) = true := by
    rw [lower_codes, any_tails]
    exact codes_infix
  unfold Provision.classifyFailure
  dsimp only
  rw [ht]
  split
  next h =>
    rw [raisedText, ofCodes, plainText_codes, isRetryable, String.toList_ofList]
    rw [hcode, hexists] at h
    generalize List.any _ _ = already at h ⊢
    obtain h | h := h <;> simp [isPermanent, h]
  next h =>
    rw [raisedText, ofCodes, plainText_codes, isRetryable, String.toList_ofList]
    rw [hcode, hexists, not_or] at h
    generalize List.any _ _ = already at h ⊢
    simp [isPermanent, h.1, h.2]

/-! ### Ends of a call -/

/-- What a command returned, as the worker's request has it. -/
def configOf (jobType : JobType) : Result → Option Text
  | .peer r => if jobType = .createPeer ∨ jobType = .redeliverConfig then some r.config else none
  | _ => none

/-- The end of a command as the wire has it and as the worker's request has it. -/
def Agree (jobType : JobType) (sent : Except Fault Result) (reply : Except Vpnctl.Error (Option Text)) : Prop :=
  match sent with
  | .ok r => reply = .ok (configOf jobType r)
  | .error .raised => reply = .error .uncaught
  | .error (.error bad) => ∃ err, bad = .command err ∧ err ≠ .uncaught ∧ reply = .error err

theorem agree_answer {jobType : JobType} {α : Type} {f : α → Result} {g : α → Option Text}
    (hfg : ∀ a, configOf jobType (f a) = g a) (c : Vpnctl.Cmd α) (s : Vpnctl.Server) :
    Agree jobType (Vpnctl.answer c f s).1 ((do return g (← c) : Vpnctl.Cmd (Option Text)) s).1 ∧
      ((do return g (← c) : Vpnctl.Cmd (Option Text)) s).2 = (Vpnctl.answer c f s).2 := by
  rcases hc : c s with ⟨err | a, t⟩
  · rw [Vpnctl.Cmd.bind_of_error hc]
    unfold Vpnctl.answer
    rw [hc]
    cases err with
    | uncaught => exact ⟨rfl, rfl⟩
    | vpnctlError | invalidInput | notFound | osError => exact ⟨⟨_, rfl, by rintro ⟨⟩, rfl⟩, rfl⟩
  · rw [Vpnctl.Cmd.return_ok hc]
    unfold Vpnctl.answer
    rw [hc]
    exact ⟨congrArg Except.ok (hfg a).symm, rfl⟩

/-- The command of a job is that of its call. -/
theorem agree_request {cfg : Vpnctl.Settings} {e : Vpnctl.Env} {now : ℕ} {jobType : JobType}
    {peer : PeerName} {id : Uuid} {slug : Str}
    (hname : jobType = .createPeer → Provision.requestLabel peer.telegramUserId id slug = .ok (codes (nameText peer)))
    (s : Vpnctl.Server) :
    Agree jobType (Vpnctl.run cfg e now slug (callOf jobType peer id) s).1
      (request cfg e jobType id.text (nameText peer) s).1 ∧
      (request cfg e jobType id.text (nameText peer) s).2 =
        (Vpnctl.run cfg e now slug (callOf jobType peer id) s).2 := by
  cases jobType with
  | createPeer =>
    have hconfig : ∀ r, configOf .createPeer (.peer r) = some r.config := fun _ => rfl
    rw [callOf, Vpnctl.run, hname rfl, request, Except.toOption, Option.getD_some, plainText_codes]
    exact agree_answer hconfig (Vpnctl.createPeer cfg e id.text (nameText peer)) s
  | disablePeer =>
    have hconfig : ∀ r, configOf .disablePeer (.found r) = none := fun _ => rfl
    rw [callOf, Vpnctl.run, request, plainText_codes]
    exact agree_answer hconfig (Vpnctl.disablePeer cfg e (nameText peer)) s
  | enablePeer =>
    have hconfig : ∀ r, configOf .enablePeer (.found r) = none := fun _ => rfl
    rw [callOf, Vpnctl.run, request, plainText_codes]
    exact agree_answer hconfig (Vpnctl.enablePeer cfg e (nameText peer)) s
  | removePeer =>
    have hconfig : ∀ r, configOf .removePeer (.found r) = none := fun _ => rfl
    rw [callOf, Vpnctl.run, request, plainText_codes]
    exact agree_answer hconfig (Vpnctl.removePeer cfg e (nameText peer)) s
  | redeliverConfig =>
    have hconfig : ∀ r, configOf .redeliverConfig (.peer r) = some r.config := fun _ => rfl
    rw [callOf, Vpnctl.run, request, plainText_codes]
    exact agree_answer hconfig (Vpnctl.getConfig (nameText peer)) s

section Sees

variable {δ : Type} {reader : Provision.StatusReader δ} {z : Zlib} {describe : ServeError → Text}
  {other : Raised → String} {jobType : JobType} {peer : PeerName} {id : Uuid}

theorem workerSees_done {r : Result} {members : List (String × Json)}
    (h : r.members z (callOf jobType peer id).serves = some members) :
    workerSees other ((callOf jobType peer id).outcome reader z describe (.ok r)) = (configOf jobType r, none) := by
  rw [Call.outcome, h, Option.elim_some]
  cases jobType with
  | createPeer | redeliverConfig =>
    cases r with
    | peer r => exact congrArg (·, none) (Utf8.decode_encodeText r.config)
    | found r => rfl
    | status st => rfl
  | disablePeer | enablePeer | removePeer => cases r <;> rfl

theorem workerSees_failed {err : Vpnctl.Error} (h : err ≠ .uncaught) :
    workerSees other ((callOf jobType peer id).outcome reader z describe (.error (.error (.command err)))) =
      (none, some (describeOf describe other err, isRetryable err.exitCode (describeOf describe other err))) := by
  have hdescribe : describeOf describe other err =
      raisedText other (Provision.classifyFailure err.exitCode (codes (describe (.command err)))) := by
    cases err with
    | uncaught => exact absurd rfl h
    | vpnctlError | invalidInput | notFound | osError => rfl
  rw [hdescribe, ← isRetryable_classify]
  cases jobType <;> rfl

end Sees

/-- The name of a call that can be made has passed the check. -/
theorem sanitized_of_args {jobType : JobType} {peer : PeerName} {id : Uuid} {args : List (Str × Str)}
    (hhex : peer.idHex8 = id.hex8) (hargs : (callOf jobType peer id).args (Provision.text peer.slug) = .ok args) :
    sanitized (nameText peer) = true ∧
      Provision.requestLabel peer.telegramUserId id (Provision.text peer.slug) = .ok (codes (nameText peer)) := by
  obtain ⟨telegramUserId, idHex8, slug⟩ := peer
  obtain rfl : idHex8 = id.hex8 := hhex
  have hcheck : ∀ label, Provision.sanitizeIdentifier
    (.string (codes (nameText ⟨telegramUserId, id.hex8, slug⟩))) = .ok label →
      sanitized (nameText ⟨telegramUserId, id.hex8, slug⟩) = true := by
    intro label hlabel
    obtain ⟨rfl, hmatch⟩ := Provision.sanitizeIdentifier_string hlabel
    rwa [matchesIdentifier_codes] at hmatch
  have hlabel : Provision.requestLabel telegramUserId id (Provision.text slug) =
      Provision.sanitizeIdentifier (.string (codes (nameText ⟨telegramUserId, id.hex8, slug⟩))) := by
    rw [Provision.requestLabel, codes_nameText]
  have hsanitized : sanitized (nameText ⟨telegramUserId, id.hex8, slug⟩) = true := by
    cases jobType with
    | createPeer =>
      obtain ⟨label, h, -⟩ := Except.bind_eq_ok.mp hargs
      exact hcheck label (hlabel ▸ h)
    | disablePeer | enablePeer | removePeer | redeliverConfig =>
      obtain ⟨label, h, -⟩ := Except.bind_eq_ok.mp hargs
      exact hcheck label h
  refine ⟨hsanitized, ?_⟩
  rw [hlabel, Provision.sanitizeIdentifier, matchesIdentifier_codes, if_pos hsanitized]

/-! ### The refinement -/

/-- How a call ends in the model when these bytes come back. -/
def answerOf (e : Vpnctl.Env) (other : Raised → String) (raw : List UInt8) : Answer :=
  if raw = [] then .lost e (other (.retryable .malformed))
  else if Provision.maxResponseBytes < raw.length then .lost e (other (.retryable .tooLarge))
  else .answered e

/-- What the worker has of a call when these bytes come back. -/
def seenOf (setup : Setup) (other : Raised → String) (raw : List UInt8) (reply : Except Vpnctl.Error (Option Text)) :
    Option Text × Failure :=
  if raw = [] then (none, some (other (.retryable .malformed), true))
  else if Provision.maxResponseBytes < raw.length then (none, some (other (.retryable .tooLarge), true))
  else readAnswer setup reply

/-- Bytes that come back say how the command ended. -/
theorem workerSees_outcome {δ : Type} {reader : Provision.StatusReader δ} {setup : Setup} {describe : ServeError → Text}
    {other : Raised → String} (hdescribe : setup.describe = describeOf describe other) {z : Zlib}
    {jobType : JobType} {peer : PeerName} {id : Uuid}
    {out : Except Fault Result} {reply : Except Vpnctl.Error (Option Text)} (hagree : Agree jobType out reply)
    (hraw : Vpnctl.reply z describe (callOf jobType peer id).serves (Vpnctl.respond out) ≠ []) :
    workerSees other ((callOf jobType peer id).outcome reader z describe out) = readAnswer setup reply := by
  cases out with
  | error fault =>
    cases fault with
    | raised => exact absurd rfl hraw
    | error bad =>
      obtain ⟨err, rfl, herr, rfl⟩ := hagree
      rw [workerSees_failed herr, readAnswer, hdescribe]
  | ok r =>
    obtain rfl : reply = .ok (configOf jobType r) := hagree
    cases hmembers : r.members z (callOf jobType peer id).serves with
    | none =>
      refine absurd ?_ hraw
      rw [Vpnctl.reply, Vpnctl.respond, Option.bind_some, Vpnctl.Response.members, hmembers]
      rfl
    | some members => rw [workerSees_done hmembers, readAnswer]

/-- A call for a job, over the wire, is a call of the model: it is answered when a whole reply comes back, and its
answer is lost when nothing does, or too much. -/
theorem callHost_over_wire {δ : Type} {py : Provision.Interpreter} (hpy : 2 ≤ py.nesting)
    (reader : Provision.StatusReader δ) (z : Zlib) {describe : ServeError → Text}
    {other : Raised → String} {setup : Setup} (hdescribe : setup.describe = describeOf describe other)
    {w : Vpnctl.World} (hw : 2 ≤ w.nesting) {file : Option Text} {cfg : Vpnctl.Config}
    (hcfg : Vpnctl.loadSettings file = .ok cfg) (hawg : Vpnctl.canSplit (cfg.get "AWG_BIN") = true)
    {s : State} {job : Job} {work : Worker.Work} {server : ServerId} (hhost : setup.hosts server = cfg.settings)
    {id : Uuid} (huuid : setup.uuid job.aggregateId = id.text) (hhex : work.peer.idHex8 = id.hex8)
    {target : Provision.Target} (hslug : target.slug = Provision.text work.peer.slug) {token : Str}
    (htoken : Json.isSeparate token = true) {args : List (Str × Str)}
    (hargs : (callOf job.jobType work.peer id).args target.slug = .ok args) {bytes : List UInt8}
    (hbytes : Provision.requestBytes target token (callOf job.jobType work.peer id) = .ok bytes)
    (hlen : bytes.length ≤ Vpnctl.maxRequestBytes) {caller : Vpnctl.Caller} (hsent : caller.sent = bytes)
    (hcaller : Vpnctl.checkCaller w cfg caller
      (some (Vpnctl.requestOf target token (callOf job.jobType work.peer id) args)) = .ok ())
    {chunks : List (List UInt8)}
    (hchunks : chunks.flatten = Vpnctl.reply z describe (callOf job.jobType work.peer id).serves
      (Vpnctl.serve w file caller (s.hosts server)).1) :
    callHost setup s job work server (answerOf w.env other chunks.flatten) =
      let seen := workerSees other
        ((callOf job.jobType work.peer id).read py reader z target.slug (Provision.responseLoop [] chunks))
      ({ s with
          hosts := Function.update s.hosts server (Vpnctl.serve w file caller (s.hosts server)).2
          config := seen.1 }, seen.2) := by
  have hserve := Provision.serve_call hw hcfg hawg htoken hargs hbytes hlen hsent hcaller (s.hosts server)
  rw [hserve] at hchunks
  have hreader : ∀ p, callOf job.jobType work.peer id = .getPeerStatus p → reader.Reads :=
    fun p h => absurd h (callOf_ne_status p)
  have hread := Provision.read_chunks hpy hreader hargs hchunks
  obtain ⟨hname, hlabel⟩ := sanitized_of_args hhex (hslug ▸ hargs)
  rw [← hslug] at hlabel
  have hrun : Agree job.jobType (Vpnctl.run cfg.settings w.env w.now target.slug (callOf job.jobType work.peer id)
        (s.hosts server)).1 (serveRequest setup s job work server w.env).1 ∧
      (serveRequest setup s job work server w.env).2 =
        (Vpnctl.run cfg.settings w.env w.now target.slug (callOf job.jobType work.peer id) (s.hosts server)).2 := by
    rw [serveRequest, hhost, huuid]
    exact agree_request (fun _ => hlabel) (s.hosts server)
  obtain ⟨hagree, hserver⟩ := hrun
  have hend : workerSees other
    ((callOf job.jobType work.peer id).read py reader z target.slug (Provision.responseLoop [] chunks)) =
      seenOf setup other chunks.flatten (serveRequest setup s job work server w.env).1 := by
    rw [hread, seenOf]
    split_ifs with hlarge hempty hempty
    · rw [hempty] at hlarge
      exact absurd hlarge (by decide)
    · rfl
    · have hsilent : (callOf job.jobType work.peer id).read py reader z target.slug (Provision.responseLoop [] chunks) =
          .error (.retryable .malformed) := Provision.read_of_error hargs (Provision.call_silent py hempty)
      rw [hread, if_neg hlarge] at hsilent
      rw [hsilent]
      rfl
    · exact workerSees_outcome hdescribe hagree (hchunks ▸ hempty)
  rw [hserve, hend, ← hserver]
  unfold callHost
  rw [if_pos hname, answerOf, seenOf]
  split_ifs <;> rfl

section Small

def lostText (_ : Raised) : String := "vpnctl did not answer"

def wireSetup : Setup :=
  ⟨⟨30, 3⟩, fun _ => Vpnctl.Config.settings Vpnctl.defaults, fun _ => Provision.firstUuid.text,
    describeOf (fun _ => []) lostText⟩

def wireState : State := start [⟨42⟩] [⟨"de-1"⟩] [⟨30⟩] 0 fun _ => Vpnctl.smallServer

def wireJob : Job := ⟨.createPeer, 0, .processing, 0, 0, none, none, none, none⟩

def wireWork : Worker.Work :=
  ⟨⟨0, 0, 0, 0, 0, .provisioning, none, none, .pending, 0, 0, 0, none, none⟩, none, some 0, ⟨42, 0, "de-1"⟩⟩

theorem callHost_over_wire_small :
    callHost wireSetup wireState wireJob wireWork 0
      (answerOf Vpnctl.smallWorld.env lostText [Provision.smallReply].flatten) =
      let seen := workerSees lostText
        (Provision.smallCall.read Provision.usualInterpreter Provision.smallReader Provision.noZlib
        (Provision.text "de-1") (Provision.responseLoop [] [Provision.smallReply]))
      ({ wireState with
          hosts := Function.update wireState.hosts 0
            (Vpnctl.serve Vpnctl.smallWorld none Provision.smallCaller Vpnctl.smallServer).2
          config := seen.1 }, seen.2) :=
  have hpy : 2 ≤ Provision.usualInterpreter.nesting := by decide
  have hcfg : Vpnctl.loadSettings none = .ok Vpnctl.defaults := rfl
  have hhex : wireWork.peer.idHex8 = Provision.firstUuid.hex8 := by decide +kernel
  have hargs : Provision.smallCall.args Provision.smallTarget.slug =
      .ok [(Provision.text "subscription_id", Provision.firstUuid.text.map Char.toNat),
        (Provision.text "label", Provision.text "user_42_00000000_de-1")] := rfl
  have hbytes : Provision.requestBytes Provision.smallTarget [] Provision.smallCall = .ok Provision.smallRequest := rfl
  have hsent : Provision.smallCaller.sent = Provision.smallRequest := by
    simp [Provision.smallCaller, Vpnctl.Caller.sent]
  have hdescribe : wireSetup.describe = describeOf (fun _ => []) lostText := rfl
  have hhost : wireSetup.hosts 0 = Vpnctl.Config.settings Vpnctl.defaults := rfl
  have huuid : wireSetup.uuid wireJob.aggregateId = Provision.firstUuid.text := rfl
  have hslug : Provision.smallTarget.slug = Provision.text wireWork.peer.slug := rfl
  have hcaller : Vpnctl.checkCaller Vpnctl.smallWorld Vpnctl.defaults Provision.smallCaller
      (some (Vpnctl.requestOf Provision.smallTarget [] Provision.smallCall
        [(Provision.text "subscription_id", Provision.firstUuid.text.map Char.toNat),
          (Provision.text "label", Provision.text "user_42_00000000_de-1")])) = .ok () := rfl
  have hchunks : [Provision.smallReply].flatten = Vpnctl.reply Provision.noZlib (fun _ => []) Provision.smallCall.serves
      (Vpnctl.serve Vpnctl.smallWorld none Provision.smallCaller (wireState.hosts 0)).1 := List.append_nil _
  callHost_over_wire hpy Provision.smallReader Provision.noZlib hdescribe (by decide) hcfg
    Vpnctl.defaults_wellFormed.awgBin hhost huuid
    hhex hslug rfl hargs hbytes (by decide +kernel) hsent hcaller hchunks

end Small

end AmneziaVpnBot.Deploy
