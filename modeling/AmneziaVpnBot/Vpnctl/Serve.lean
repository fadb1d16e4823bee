import AmneziaVpnBot.Vpnctl.Caller
import AmneziaVpnBot.Vpnctl.Effects

/-! Whether a caller that may call gets a reply. What is read of a connection is its first line,
unless that is too long or too late; a line that is no request is refused as bad input. Two kinds
of lines end the process instead: one nested deeper than the parser can follow, and a request
whose command cannot be looked up. -/

namespace AmneziaVpnBot.Vpnctl

open Text

/-! ### Reading -/

/-- The pieces up to the first that has a newline. -/
def upToNewline : List (List UInt8) → List UInt8
  | [] => []
  | chunk :: chunks => if newline ∈ chunk then chunk else chunk ++ upToNewline chunks

/-- The pieces read are not too much, and end with a newline or the caller's last byte. -/
def Socket.arrives (socket : Socket) : Bool :=
  (upToNewline socket.chunks).length ≤ maxRequestBytes &&
    (newline ∈ upToNewline socket.chunks || socket.ending = .closed)

def Caller.arrives : Caller → Bool
  | .stdin bytes => bytes.length ≤ maxRequestBytes
  | .unix socket | .tcp socket _ => socket.arrives

theorem firstLine_of_mem {u : List UInt8} (h : newline ∈ u) (v : List UInt8) : firstLine (u ++ v) = firstLine u := by
  induction u with
  | nil => cases h
  | cons b u ih =>
    by_cases hb : b = newline
    · simp [firstLine, hb]
    · have hu : newline ∈ u := (List.mem_cons.mp h).resolve_left (Ne.symm hb)
      simpa [firstLine, hb] using ih hu

theorem firstLine_upToNewline (chunks : List (List UInt8)) :
    firstLine (upToNewline chunks) = firstLine chunks.flatten := by
  induction chunks with
  | nil => rfl
  | cons chunk chunks ih =>
    rw [upToNewline, List.flatten_cons]
    split
    · rename_i h
      exact (firstLine_of_mem h _).symm
    · rename_i h
      have hall : ∀ b ∈ chunk, decide (b ≠ newline) = true := by
        intro b hb
        simp only [decide_eq_true_eq]
        rintro rfl
        exact h hb
      simp only [firstLine] at ih ⊢
      rw [List.takeWhile_append_of_pos hall, List.takeWhile_append_of_pos hall, ih]

theorem recvLoop_stop {ending : Ending} {raw : List UInt8} (h : newline ∈ raw ∨ maxRequestBytes < raw.length)
    (chunks : List (List UInt8)) : recvLoop ending raw chunks = some raw := by
  cases chunks with
  | nil => exact if_pos (h.elim .inl fun h => .inr (.inl h))
  | cons chunk chunks => exact if_pos h

/-- The loop reads too much, or the pieces up to the first newline. -/
theorem recvLoop_cases {ending : Ending} {raw : List UInt8} (hraw : newline ∉ raw) (hlen : raw.length ≤ maxRequestBytes)
    (chunks : List (List UInt8)) :
    (maxRequestBytes < (raw ++ upToNewline chunks).length ∧
        ∃ out, recvLoop ending raw chunks = some out ∧ maxRequestBytes < out.length) ∨
      (raw ++ upToNewline chunks).length ≤ maxRequestBytes ∧
        recvLoop ending raw chunks =
          if newline ∈ raw ++ upToNewline chunks ∨ ending = .closed then some (raw ++ upToNewline chunks)
          else none := by
  induction chunks generalizing raw with
  | nil =>
    right
    rw [upToNewline, List.append_nil, recvLoop]
    exact ⟨hlen, by simp only [Nat.not_lt.mpr hlen, false_or]⟩
  | cons chunk chunks ih =>
    rw [recvLoop, if_neg (not_or.mpr ⟨hraw, Nat.not_lt.mpr hlen⟩)]
    by_cases hfits : (raw ++ chunk).length ≤ maxRequestBytes
    · have htake : chunk.take (maxRequestBytes + 1 - raw.length) = chunk := by
        rw [List.length_append] at hfits
        exact List.take_of_length_le (by omega)
      rw [htake, upToNewline]
      split
      · rename_i hmem
        have hnew : newline ∈ raw ++ chunk := List.mem_append_right _ hmem
        right
        refine ⟨hfits, ?_⟩
        rw [if_pos (.inl hnew)]
        exact recvLoop_stop (.inl hnew) chunks
      · rename_i hmem
        rw [← List.append_assoc]
        refine ih ?_ hfits
        rw [List.mem_append]
        exact not_or.mpr ⟨hraw, hmem⟩
    · left
      rw [List.length_append] at hfits
      have hlong : maxRequestBytes < (raw ++ chunk.take (maxRequestBytes + 1 - raw.length)).length := by
        rw [List.length_append, List.length_take]
        omega
      have hmore : chunk.length ≤ (upToNewline (chunk :: chunks)).length := by
        rw [upToNewline]
        split <;> simp
      refine ⟨?_, _, recvLoop_stop (.inr hlong) chunks, hlong⟩
      rw [List.length_append]
      omega

theorem Socket.raw_cases (socket : Socket) :
    (socket.arrives = true ∧ ∃ raw, recvLoop socket.ending [] socket.chunks = some raw ∧ raw.length ≤ maxRequestBytes ∧
        firstLine raw = firstLine socket.chunks.flatten) ∨
      socket.arrives = false ∧ ∀ raw, recvLoop socket.ending [] socket.chunks = some raw →
        maxRequestBytes < raw.length := by
  rcases @recvLoop_cases socket.ending [] (by simp) (by simp) socket.chunks with
    ⟨hlong, out, hout, hlen⟩ | ⟨hlen, hloop⟩
  · rw [List.nil_append] at hlong
    refine .inr ⟨?_, fun raw hraw => ?_⟩
    · simp [Socket.arrives, Nat.not_le.mpr hlong]
    · rw [hout] at hraw
      exact Option.some.inj hraw ▸ hlen
  · rw [List.nil_append] at hlen hloop
    by_cases hend : newline ∈ upToNewline socket.chunks ∨ socket.ending = .closed
    · rw [if_pos hend] at hloop
      exact .inl ⟨by simpa [Socket.arrives, hlen] using hend, _, hloop, hlen, firstLine_upToNewline _⟩
    · rw [if_neg hend] at hloop
      refine .inr ⟨?_, fun raw hraw => ?_⟩
      · simpa [Socket.arrives, hlen] using hend
      · rw [hloop] at hraw
        cases hraw

theorem Caller.raw_cases (caller : Caller) :
    (caller.arrives = true ∧ ∃ raw, caller.raw = some raw ∧ raw.length ≤ maxRequestBytes ∧
        firstLine raw = firstLine caller.sent) ∨
      caller.arrives = false ∧ ∀ raw, caller.raw = some raw → maxRequestBytes < raw.length := by
  cases caller with
  | stdin bytes =>
    rw [Caller.arrives, Caller.raw, Caller.sent]
    by_cases h : bytes.length ≤ maxRequestBytes
    · refine .inl ⟨decide_eq_true h, _, rfl, ?_, ?_⟩
      · exact (List.length_take_le' _ _).trans h
      · rw [List.take_of_length_le (by omega)]
    · refine .inr ⟨decide_eq_false h, ?_⟩
      rintro raw ⟨⟩
      rw [List.length_take]
      omega
  | unix socket => exact socket.raw_cases
  | tcp socket _ => exact socket.raw_cases

/-- What is read is the first line, or is refused. -/
theorem readRequest_cases (limit : ℕ) (caller : Caller) :
    (caller.arrives = true ∧ readRequest limit caller = readLine limit (firstLine caller.sent)) ∨
      caller.arrives = false ∧ ∃ message, readRequest limit caller = .error (.error (.badRequest message)) := by
  rcases caller.raw_cases with ⟨ha, raw, hraw, hlen, hline⟩ | ⟨ha, hlong⟩
  · refine .inl ⟨ha, ?_⟩
    rw [readRequest, hraw, ← hline]
    exact if_neg (Nat.not_lt.mpr hlen)
  · refine .inr ⟨ha, ?_⟩
    rw [readRequest]
    cases hraw : caller.raw with
    | none => exact ⟨_, rfl⟩
    | some raw => exact ⟨_, if_pos (hlong raw hraw)⟩

/-! ### Exceptions of the commands -/

/-- A block with a key, a preshared key and an address, as the scripts and `vpnctl` write them. -/
def BlockOk (block : Text) : Prop :=
  ∃ pub psk ips, peerValues block = some (pub, psk, ips) ∧
    (parseInterface (strip ((ips.splitOn ',').headD []))).isSome = true

structure Server.WellFormed (s : Server) : Prop where
  address : ∀ conf iface address, s.conf = some conf → interfaceLines conf = some iface →
    getValue iface "Address".toList = some address →
    (parseInterface (strip ((address.splitOn ',').headD []))).isSome = true
  blocks : ∀ conf, s.conf = some conf → ∀ t ∈ splitSections conf, t.header = some peerHeader → BlockOk t.text
  saved : ∀ name block, s.readClientFile name .peer = some block → BlockOk block

/-- No exception that `vpnctl` does not catch. -/
def Caught {α : Type} (r : Except Error α) : Prop := r ≠ .error .uncaught

section

variable {α β : Type} {cfg : Settings} {e : Env} {s : Server}

theorem caught_ok (a : α) : Caught (.ok a : Except Error α) := by rintro ⟨⟩

theorem Caught.bind {r : Except Error α} {f : α → Except Error β} (h : Caught r) (hf : ∀ a, r = .ok a → Caught (f a)) :
    Caught (r >>= f) := by
  cases r with
  | ok a => exact hf a rfl
  | error err => exact fun he => h (congrArg _ (Except.error.inj he))

theorem Caught.ofExcept_bind {r : Except Error α} {f : α → Cmd β} (h : Caught r)
    (hf : ∀ a, r = .ok a → Caught (f a s).1) : Caught ((Cmd.ofExcept r >>= f) s).1 := by
  cases r with
  | ok a => exact hf a rfl
  | error err => exact fun he => h (congrArg _ (Except.error.inj he))

theorem Caught.cmd_bind {c : Cmd α} {f : α → Cmd β} (h : Caught (c s).1) (hf : ∀ a t, Caught (f a t).1) :
    Caught ((c >>= f) s).1 := by
  cases hc : c s with
  | mk r t =>
    rw [hc] at h
    cases r with
    | ok a => exact (Cmd.bind_of_ok hc f) ▸ hf a t
    | error err =>
      rw [Cmd.bind_of_error hc]
      exact fun he => h (congrArg _ (Except.error.inj he))

theorem caught_validateUuid (value : Text) : Caught (validateUuid value) := by
  unfold validateUuid
  split <;> rintro ⟨⟩

theorem caught_validateIdentifier (field value : Text) : Caught (validateIdentifier field value) := by
  unfold validateIdentifier
  split <;> rintro ⟨⟩

theorem caught_readConf (cfg : Settings) (s : Server) : Caught (readConf cfg s) := by
  unfold readConf
  split <;> rintro ⟨⟩

theorem caught_awgRun (e : Env) (call : AwgCall) (args out : Text) : Caught (awgRun e call args out) := by
  unfold awgRun
  split <;> rintro ⟨⟩

theorem caught_writePrivate (path : Path) (text : Text) (s : Server) : Caught (writePrivate cfg e path text s).1 := by
  unfold writePrivate
  split <;> rintro ⟨⟩

theorem caught_removeKey (pub : Option Text) (s : Server) : Caught (removeKey cfg e pub s).1 := by
  cases pub with
  | none => exact caught_ok ()
  | some pub => exact .ofExcept_bind (caught_awgRun _ _ _ _) fun _ _ => caught_ok ()

theorem caught_awgSetPeer (pub psk ips : Text) (s : Server) :
    Caught (awgSetPeer cfg e (some pub) (some psk) (some ips) s).1 :=
  .ofExcept_bind (caught_awgRun _ _ _ _) fun _ _ => caught_ok ()

theorem caught_onError {c : Cmd α} {cleanup : Cmd Unit} (h : ∀ s, Caught (c s).1) (s : Server) :
    Caught (Cmd.onError c cleanup s).1 := by
  have hs := h s
  unfold Cmd.onError
  split
  · exact caught_ok _
  · rename_i err t hc
    rw [hc] at hs
    exact hs

/-! #### Creating -/

theorem caught_interfaceSettings (cfg : Settings) (conf : Text) : Caught (interfaceSettings cfg conf) := by
  unfold interfaceSettings
  split
  · rintro ⟨⟩
  · dsimp only
    split <;> rintro ⟨⟩

theorem of_interfaceSettings {cfg : Settings} {conf address port serverPriv : Text} {iface : List Text}
    (h : interfaceSettings cfg conf = .ok (iface, address, port, serverPriv)) :
    interfaceLines conf = some iface ∧ getValue iface "Address".toList = some address := by
  unfold interfaceSettings at h
  split at h
  · cases h
  · rename_i iface' hiface
    dsimp only at h
    split at h
    · rename_i address' port' priv' haddress _ _
      cases h
      exact ⟨hiface, haddress⟩
    · cases h

theorem caught_freeAddress {address : Text}
    (h : (parseInterface (strip ((address.splitOn ',').headD []))).isSome = true) (s : Server) (conf : Text) :
    Caught (freeAddress s conf address) := by
  obtain ⟨i, hi⟩ := Option.isSome_iff_exists.mp h
  rw [freeAddress, hi]
  dsimp only
  split <;> rintro ⟨⟩

theorem caught_endpointHost (cfg : Settings) (e : Env) : Caught (endpointHost cfg e) := by
  unfold endpointHost
  dsimp only
  split <;> rintro ⟨⟩

theorem caught_planCreate (hs : s.WellFormed) : Caught (planCreate cfg e s) := by
  refine (caught_readConf cfg s).bind fun conf hconf => (caught_interfaceSettings cfg conf).bind ?_
  rintro ⟨iface, address, port, serverPriv⟩ hset
  refine Caught.bind (caught_freeAddress ?_ s conf) fun ip _ => ?_
  · obtain ⟨hiface, haddress⟩ := of_interfaceSettings hset
    exact hs.address conf iface address (of_readConf hconf) hiface haddress
  refine (caught_awgRun _ _ _ _).bind fun priv _ => (caught_awgRun _ _ _ _).bind fun pub _ => ?_
  refine (caught_awgRun _ _ _ _).bind fun psk _ => (caught_awgRun _ _ _ _).bind fun serverPub _ => ?_
  exact (caught_endpointHost cfg e).bind fun host _ => caught_ok _

theorem caught_applyPlan (name : Text) (p : Plan) (s : Server) : Caught (applyPlan cfg e name p s).1 := by
  refine (caught_awgSetPeer _ _ _ s).cmd_bind fun _ t => ?_
  refine Caught.cmd_bind (caught_onError (fun t => ?_) t) fun _ _ => caught_ok _
  exact (caught_writePrivate _ _ t).cmd_bind fun _ t => (caught_writePrivate _ _ t).cmd_bind fun _ t =>
    caught_writePrivate _ _ t

theorem caught_createPeer (hs : s.WellFormed) (id label : Text) : Caught (createPeer cfg e id label s).1 := by
  refine .ofExcept_bind (caught_validateUuid id) fun _ _ =>
    .ofExcept_bind (caught_validateIdentifier _ label) fun name _ => ?_
  rw [Cmd.get_bind]
  cases s.readClientFile name .conf with
  | some existing => exact caught_ok _
  | none => exact .ofExcept_bind (caught_planCreate hs) fun p _ => caught_applyPlan name p s

/-! #### Turning off and on, removing, reading -/

theorem caught_saveBlock (name block : Text) (s : Server) : Caught (saveBlock cfg e name block s).1 := by
  rw [saveBlock, Cmd.get_bind]
  split
  · exact caught_writePrivate _ _ s
  · exact caught_ok ()

theorem caught_disablePeer (name : Text) (s : Server) : Caught (disablePeer cfg e name s).1 := by
  refine .ofExcept_bind (caught_validateIdentifier _ _) fun name _ => ?_
  rw [Cmd.get_bind]
  refine .ofExcept_bind (caught_readConf cfg s) fun conf _ => ?_
  cases findPeer conf name with
  | none => exact caught_ok _
  | some found =>
    refine Caught.cmd_bind (caught_saveBlock name found.1 s) fun _ t =>
      (caught_writePrivate _ _ t).cmd_bind fun _ t => ?_
    exact (caught_removeKey found.2 t).cmd_bind fun _ _ => caught_ok _

theorem BlockOk.caught_setPeerOf {block : Text} (h : BlockOk block) (s : Server) :
    Caught (setPeerOf cfg e block s).1 := by
  obtain ⟨pub, psk, ips, hvalues, -⟩ := h
  simp only [peerValues, Option.bind_eq_some_iff, Option.map_eq_some_iff] at hvalues
  obtain ⟨pub, hpub, psk, hpsk, ips, hips, -⟩ := hvalues
  rw [setPeerOf, hpub, hpsk, hips]
  exact caught_awgSetPeer pub psk ips s

theorem BlockOk.caught_checkAddress {block : Text} (h : BlockOk block) (s : Server) (conf name : Text) :
    Caught (checkAddress s conf name block) := by
  obtain ⟨pub, psk, ips, hvalues, hips⟩ := h
  simp only [peerValues, Option.bind_eq_some_iff, Option.map_eq_some_iff] at hvalues
  obtain ⟨_, -, _, -, value, hvalue, heq⟩ := hvalues
  obtain rfl : value = ips := congrArg (·.2.2) heq
  obtain ⟨i, hi⟩ := Option.isSome_iff_exists.mp hips
  rw [checkAddress, hvalue]
  dsimp only
  rw [hi]
  dsimp only
  split <;> rintro ⟨⟩

theorem caught_enablePeer (hs : s.WellFormed) (name : Text) : Caught (enablePeer cfg e name s).1 := by
  refine .ofExcept_bind (caught_validateIdentifier _ _) fun name _ => ?_
  rw [Cmd.get_bind]
  refine .ofExcept_bind (caught_readConf cfg s) fun conf hconf => ?_
  cases hfind : findPeer conf name with
  | some found =>
    obtain ⟨block, key⟩ := found
    obtain ⟨t, ht, heq⟩ := Option.map_eq_some_iff.mp hfind
    obtain rfl : t.text = block := congrArg Prod.fst heq
    have hpeer := List.find?_some ht
    simp only [Section.isPeer, Bool.and_eq_true, beq_iff_eq] at hpeer
    have hok := hs.blocks conf (of_readConf hconf) t (List.mem_of_find?_eq_some ht) hpeer.1
    exact (hok.caught_setPeerOf s).cmd_bind fun _ _ => caught_ok _
  | none =>
    cases hsaved : s.readClientFile name .peer with
    | none => rintro ⟨⟩
    | some block =>
      have hok := hs.saved name block hsaved
      refine .ofExcept_bind (hok.caught_checkAddress s conf name) fun _ _ => ?_
      exact (caught_writePrivate _ _ s).cmd_bind fun _ t => (hok.caught_setPeerOf t).cmd_bind fun _ _ => caught_ok _

theorem caught_removePeer (name : Text) (s : Server) : Caught (removePeer cfg e name s).1 := by
  have hfinish : ∀ name pub t, Caught (finishRemove cfg e name pub t).1 := fun name pub t =>
    (caught_removeKey pub t).cmd_bind fun _ t => caught_ok _
  refine .ofExcept_bind (caught_validateIdentifier _ _) fun name _ => ?_
  rw [Cmd.get_bind]
  refine .ofExcept_bind (caught_readConf cfg s) fun conf _ => ?_
  cases findPeer conf name with
  | some found => exact (caught_writePrivate _ _ s).cmd_bind fun _ t => hfinish name found.2 t
  | none => exact hfinish name _ s

theorem caught_peerStatus (now : ℕ) (name : Text) (s : Server) : Caught (peerStatus cfg e now name s).1 := by
  refine .ofExcept_bind (caught_validateIdentifier _ _) fun name _ => ?_
  rw [Cmd.get_bind]
  refine .ofExcept_bind (caught_readConf cfg s) fun conf _ => ?_
  have hshow : ∀ r : Status, Caught ((do
      let _ ← Cmd.ofExcept (awgRun e .showHandshakes ("show ".toList ++ cfg.interface) [])
      let _ ← Cmd.ofExcept (awgRun e .showTransfer ("show ".toList ++ cfg.interface) [])
      return r : Cmd Status) s).1 := fun r =>
    .ofExcept_bind (caught_awgRun _ _ _ _) fun _ _ => .ofExcept_bind (caught_awgRun _ _ _ _) fun _ _ => caught_ok r
  cases findPeer conf name with
  | none => cases savedKey s name <;> exact caught_ok _
  | some found =>
    obtain ⟨block, key⟩ := found
    cases key with
    | some pub => exact hshow _
    | none =>
      cases savedKey s name with
      | none => exact caught_ok _
      | some pub => exact hshow _

theorem caught_getConfig (name : Text) (s : Server) : Caught (getConfig name s).1 := by
  refine .ofExcept_bind (caught_validateIdentifier _ _) fun name _ => ?_
  rw [Cmd.get_bind]
  cases s.readClientFile name .conf with
  | some text => exact caught_ok _
  | none => rintro ⟨⟩

end

end AmneziaVpnBot.Vpnctl
