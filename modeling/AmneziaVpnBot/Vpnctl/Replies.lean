import AmneziaVpnBot.Vpnctl.Serve

/-! Every caller that may call gets a reply, and a line that is no request is refused as bad
input, unless the line is nested too deeply or its command is a list or an object. -/

namespace AmneziaVpnBot.Vpnctl

open Text

/-! ### Lines -/

/-- Only the keys of a request, a command of the six, and its options as strings. -/
def isRequestValue : Json → Bool
  | .object members =>
    onlyRequestKeys members &&
      match members.lookup (str "command"), members.lookup (str "args") with
      | some (.string command), some (.object args) => (serveCommand command).any fun c => (c.values args).isSome
      | _, _ => false
  | _ => false

def lineJson (line : List UInt8) : Option Json := (Utf8.decode line).bind Json.parse

def isRequest (line : List UInt8) : Bool := (lineJson line).any isRequestValue

/-- The bytes of a line. -/
def utf8 (s : String) : List UInt8 := (str s).flatMap Utf8.encodeChar

example : isRequest (utf8 "\x7b\"command\": \"get-config\", \"args\": \x7b\"peer_id\": \"a\"\x7d\x7d") = true ∧
    isRequest (utf8 "\x7b\"command\": \"get-config\", \"args\": \x7b\"peer_id\": [\"a\"]\x7d\x7d") = false := by
  decide +kernel

/-- The line is nested deeper than `json.loads` reads. -/
def tooDeep (limit : ℕ) (line : List UInt8) : Bool := (Utf8.decode line).any fun t => limit < Json.nesting t

/-- The line is an object that is read as a request, and its command is a list or an object. -/
def commandIsContainer (line : List UInt8) : Bool :=
  (lineJson line).any fun v => (toRequest v).toOption.any fun r => r.command.any isContainer

theorem readLine_cases (limit : ℕ) (line : List UInt8) :
    (tooDeep limit line = true ∧ readLine limit line = .error .raised) ∨
      tooDeep limit line = false ∧
        ((lineJson line = none ∧ ∃ message, readLine limit line = .error (.error (.badRequest message))) ∨
          ∃ v, lineJson line = some v ∧ readLine limit line = (toRequest v).mapError .error) := by
  rw [readLine, tooDeep, lineJson]
  cases Utf8.decode line with
  | none => exact .inr ⟨rfl, .inl ⟨rfl, _, rfl⟩⟩
  | some t =>
    rw [Option.map_some, Json.loads_eq, Option.any_some, Option.bind_some]
    by_cases hdeep : limit < Json.nesting t
    · left
      rw [if_pos hdeep]
      exact ⟨decide_eq_true hdeep, rfl⟩
    · right
      refine ⟨decide_eq_false hdeep, ?_⟩
      rw [if_neg hdeep]
      cases Json.parse t with
      | none => exact .inl ⟨rfl, _, rfl⟩
      | some v => exact .inr ⟨v, rfl, rfl⟩

theorem toRequest_error {v : Json} {err : ServeError} (h : toRequest v = .error err) : err.exitCode = 2 := by
  unfold toRequest at h
  split at h
  · split at h
    · split at h
      · cases h
      · cases h; rfl
    · cases h; rfl
  · cases h; rfl

/-! ### Handling -/

/-- The command is one of the six and the arguments are its own. -/
def Request.takes (r : Request) : Bool :=
  match r.command with
  | some (.string command) => (serveCommand command).any fun c => (c.values r.args).isSome
  | _ => false

theorem values_nil (c : ServeCommand) : c.values [] = none := by
  cases c <;> decide

theorem isRequestValue_of_takes {v : Json} {r : Request} (h : toRequest v = .ok r) (hr : r.takes = true) :
    isRequestValue v = true := by
  unfold toRequest at h
  split at h
  · rename_i members
    split at h
    · rename_i args hargs
      split at h
      · rename_i hkeys
        cases h
        rw [isRequestValue, hkeys, Bool.true_and]
        rw [Request.takes] at hr
        dsimp only at hr
        cases hc : members.lookup (str "command") with
        | none => simp [hc] at hr
        | some command =>
          cases ha : members.lookup (str "args") with
          | none =>
            rw [ha, Option.getD_none, Json.object.injEq] at hargs
            subst hargs
            cases command <;> simp [hc, values_nil] at hr
          | some a =>
            rw [ha, Option.getD_some] at hargs
            subst hargs
            cases command <;> simp_all
      · cases h
    · cases h
  · cases h

/-- A request whose command cannot be looked up raises; one that is not for a command is refused. -/
theorem handle_cases (cfg : Config) (e : Env) (now : ℕ) (r : Request) (s : Server) :
    (r.command.any isContainer = true ∧ handle cfg e now r s = (.error .raised, s)) ∨
      r.command.any isContainer = false ∧
        ((r.takes = false ∧ ∃ err, handle cfg e now r s = (.error (.error err), s) ∧ err.exitCode = 2) ∨
          r.takes = true ∧ ∃ (c : ServeCommand) (args : _), handle cfg e now r s =
            if canSplit (cfg.get "AWG_BIN") then c.run cfg.settings e now args s else (.error .raised, s)) := by
  obtain ⟨command, args, token⟩ := r
  rw [handle, Request.takes]
  dsimp only
  cases command with
  | none => exact .inr ⟨rfl, .inl ⟨rfl, _, rfl, rfl⟩⟩
  | some v =>
    cases v with
    | array items => exact .inl ⟨rfl, rfl⟩
    | object members => exact .inl ⟨rfl, rfl⟩
    | null => exact .inr ⟨rfl, .inl ⟨rfl, _, rfl, rfl⟩⟩
    | bool b => exact .inr ⟨rfl, .inl ⟨rfl, _, rfl, rfl⟩⟩
    | number literal => exact .inr ⟨rfl, .inl ⟨rfl, _, rfl, rfl⟩⟩
    | string name =>
      refine .inr ⟨rfl, ?_⟩
      dsimp only
      cases serveCommand name with
      | none => exact .inl ⟨rfl, _, rfl, rfl⟩
      | some c =>
        dsimp only
        rw [Option.any_some]
        cases c.values args with
        | none => exact .inl ⟨rfl, _, rfl, rfl⟩
        | some values => exact .inr ⟨rfl, c, values, rfl⟩

theorem answer_caught {α : Type} {c : Cmd α} {s : Server} (h : Caught (c s).1) (f : α → Result) :
    (answer c f s).1 ≠ .error .raised := by
  unfold answer
  split
  · rintro ⟨⟩
  · rename_i t hc
    rw [hc] at h
    exact absurd rfl h
  · rintro ⟨⟩

theorem onPeer_caught {α : Type} {c : Text → Cmd α} {s : Server} (h : ∀ name, Caught (c name s).1) (f : α → Result)
    (peerId : Str) : (onPeer c f peerId s).1 ≠ .error .raised := by
  unfold onPeer
  split
  · exact answer_caught (h _) f
  · rintro ⟨⟩

theorem onSubscription_caught {cfg : Settings} {e : Env} {s : Server} (hs : s.WellFormed) (id label : Str) :
    (onSubscription cfg e id label s).1 ≠ .error .raised := by
  unfold onSubscription
  split
  · rintro ⟨⟩
  · split
    · exact answer_caught (caught_createPeer hs _ _) _
    · split <;> rintro ⟨⟩

/-- On a well-formed server every exception of a command is reported. -/
theorem run_caught {s : Server} (hs : s.WellFormed) (c : ServeCommand) (cfg : Settings) (e : Env) (now : ℕ)
    (args : List (Str × Str)) : (c.run cfg e now args s).1 ≠ .error .raised := by
  cases c with
  | createPeer => exact onSubscription_caught hs _ _
  | disablePeer => exact onPeer_caught (fun name => caught_disablePeer name s) _ _
  | enablePeer => exact onPeer_caught (fun name => caught_enablePeer hs name) _ _
  | removePeer => exact onPeer_caught (fun name => caught_removePeer name s) _ _
  | peerStatus => exact onPeer_caught (fun name => caught_peerStatus now name s) _ _
  | getConfig => exact onPeer_caught (fun name => caught_getConfig name s) _ _

/-! ### Replies -/

/-- `shlex.split` can split the call of `awg`, and no path or call has a NUL in it. -/
structure Config.WellFormed (cfg : Config) : Prop where
  awgBin : canSplit (cfg.get "AWG_BIN") = true
  plain : '\x00' ∉ cfg.get "AWG_BIN" ∧ '\x00' ∉ cfg.get "CONF_DIR"

/-- There is a reply, and it refuses a line that is no request as bad input. -/
def Answers (w : World) (file : Option Text) (caller : Caller) (s : Server) : Prop :=
  ∃ reply, (serve w file caller s).1 = some reply ∧
    (isRequest (firstLine caller.sent) = false → reply.exitCode = 2 ∧ (serve w file caller s).2 = s)

theorem accept_of_local {caller : Caller} (h : caller.isTcp = false) (w : World) (cfg : Config) :
    accept w cfg caller = readRequest w.nesting caller := by
  have hcheck : ∀ r, checkCaller w cfg caller r = .ok () := by
    intro r
    cases caller with
    | stdin bytes => rfl
    | unix socket => rfl
    | tcp socket peername => cases h
  unfold accept
  cases readRequest w.nesting caller with
  | ok r =>
    simp only [hcheck]
    rfl
  | error fault =>
    cases fault with
    | error bad =>
      simp only [hcheck]
      rfl
    | raised => rfl

theorem serve_of_fault {w : World} {file : Option Text} {cfg : Config} (hcfg : loadSettings file = .ok cfg)
    {caller : Caller}
    {fault : Fault} (h : accept w cfg caller = .error fault) (s : Server) :
    serve w file caller s = (respond (.error fault), s) := by
  rw [serve, hcfg]
  dsimp only
  rw [h]

theorem serve_of_request {w : World} {file : Option Text} {cfg : Config} (hcfg : loadSettings file = .ok cfg)
    {caller : Caller} {r : Request} (h : accept w cfg caller = .ok r) (s : Server) :
    serve w file caller s = (respond (handle cfg w.env w.now r s).1, (handle cfg w.env w.now r s).2) := by
  rw [serve, hcfg]
  dsimp only
  rw [h]

/-- There is a reply as there should be, unless the line is read and is one of the two kinds. -/
theorem answers_iff {file : Option Text} {cfg : Config} (hcfg : loadSettings file = .ok cfg) (hwf : cfg.WellFormed)
    {caller : Caller} (hlocal : caller.isTcp = false) (w : World) {s : Server} (hs : s.WellFormed) :
    Answers w file caller s ↔
      ¬ (caller.arrives = true ∧
        (tooDeep w.nesting (firstLine caller.sent) = true ∨ commandIsContainer (firstLine caller.sent) = true)) := by
  have haccept := accept_of_local hlocal w cfg
  have hbad : ∀ err : ServeError, err.exitCode = 2 → readRequest w.nesting caller = .error (.error err) →
      Answers w file caller s := by
    intro err herr hread
    rw [Answers, serve_of_fault hcfg (haccept.trans hread)]
    exact ⟨_, rfl, fun _ => ⟨herr, rfl⟩⟩
  rcases readRequest_cases w.nesting caller with ⟨harrives, hread⟩ | ⟨harrives, message, hread⟩
  · rw [harrives]
    rcases readLine_cases w.nesting (firstLine caller.sent) with ⟨hdeep, hline⟩ | ⟨hdeep, hline⟩
    · rw [Answers, serve_of_fault hcfg (haccept.trans (hread.trans hline)), hdeep]
      simp [respond]
    rw [hdeep]
    rcases hline with ⟨hvalue, message, hline⟩ | ⟨v, hvalue, hline⟩
    · have hnone : commandIsContainer (firstLine caller.sent) = false := by rw [commandIsContainer, hvalue]; rfl
      rw [hnone]
      exact iff_of_true (hbad _ rfl (hread.trans hline)) (by simp)
    cases hr : toRequest v with
    | error err =>
      have hnone : commandIsContainer (firstLine caller.sent) = false := by
        rw [commandIsContainer, hvalue, Option.any_some, hr]
        rfl
      rw [hr] at hline
      rw [hnone]
      exact iff_of_true (hbad _ (toRequest_error hr) (hread.trans hline)) (by simp)
    | ok r =>
      have hcontainer : commandIsContainer (firstLine caller.sent) = r.command.any isContainer := by
        rw [commandIsContainer, hvalue, Option.any_some, hr]
        rfl
      have hrequest : isRequest (firstLine caller.sent) = false → r.takes = false := by
        intro hno
        rw [isRequest, hvalue, Option.any_some] at hno
        by_contra htakes
        rw [isRequestValue_of_takes hr (by simpa using htakes)] at hno
        cases hno
      rw [hr] at hline
      rw [Answers, serve_of_request hcfg (haccept.trans (hread.trans hline)), hcontainer]
      rcases handle_cases cfg w.env w.now r s with ⟨hc, hh⟩ | ⟨hc, ⟨-, err, hh, herr⟩ | ⟨htakes, c, args, hh⟩⟩
      · rw [hh, hc]
        simp [respond]
      · rw [hh, hc]
        exact iff_of_true ⟨_, rfl, fun _ => ⟨herr, rfl⟩⟩ (by simp)
      · rw [hc, hh, if_pos hwf.awgBin]
        refine iff_of_true ?_ (by simp)
        have hcaught := run_caught hs c cfg.settings w.env w.now args
        cases hout : (c.run cfg.settings w.env w.now args s).1 with
        | ok result => exact ⟨_, rfl, fun hno => absurd (hrequest hno) (by simp [htakes])⟩
        | error fault =>
          cases fault with
          | error err => exact ⟨_, rfl, fun hno => absurd (hrequest hno) (by simp [htakes])⟩
          | raised => exact absurd hout hcaught
  · rw [harrives]
    exact iff_of_true (hbad _ rfl hread) (by simp)

/-! ### A list for a command -/

theorem smallServer_wellFormed : smallServer.WellFormed where
  address := by
    rintro conf iface address ⟨⟩ hiface haddress
    have hall : ((interfaceLines (smallServer.conf.getD [])).bind fun iface => getValue iface "Address".toList).all
        (fun address => (parseInterface (strip ((address.splitOn ',').headD []))).isSome) = true := by
      decide +kernel
    rw [show interfaceLines (smallServer.conf.getD []) = some iface from hiface, Option.bind_some, haddress] at hall
    exact hall
  blocks := by
    rintro conf ⟨⟩ t ht hpeer
    have hall : (splitSections (smallServer.conf.getD [])).all (fun t => t.header ≠ some peerHeader) = true := by
      decide +kernel
    exact absurd hpeer (by simpa using List.all_eq_true.mp hall t ht)
  saved := by
    rintro name block h
    cases h

theorem defaults_wellFormed : Config.WellFormed defaults := ⟨by decide +kernel, by decide +kernel⟩

def smallWorld : World where
  env := smallEnv "a2V5".toList
  now := 0
  nesting := 900
  whoisNesting := 900
  sha256 := fun bytes => bytes
  whois := fun _ => .failed

theorem answers_iff_small : Answers smallWorld none (.stdin (utf8 "[1, 2]\n")) smallServer :=
  (answers_iff rfl defaults_wellFormed rfl smallWorld smallServer_wellFormed).mpr (by decide +kernel)

/-- `[]` has no hash, so looking it up in a dict raises a `TypeError`. -/
theorem not_answers_listCommand :
    ¬ ∀ (w : World) (file : Option Text) (cfg : Config) (caller : Caller) (s : Server), loadSettings file = .ok cfg →
      cfg.WellFormed → caller.isTcp = false → s.WellFormed → Answers w file caller s := by
  intro h
  obtain ⟨reply, hreply, -⟩ := h smallWorld none defaults
    (.unix ⟨[utf8 "\x7b\"command\": [], \"args\": \x7b\x7d\x7d\n"], .closed, by decide +kernel⟩) smallServer rfl
    defaults_wellFormed rfl smallServer_wellFormed
  have hnone : (serve smallWorld none
      (.unix ⟨[utf8 "\x7b\"command\": [], \"args\": \x7b\x7d\x7d\n"], .closed, by decide +kernel⟩)
        smallServer).1.isNone =
      true := by
    decide +kernel
  rw [hreply] at hnone
  cases hnone

end AmneziaVpnBot.Vpnctl
