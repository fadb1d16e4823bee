import AmneziaVpnBot.Vpnctl.Effects

/-! What each command has done when it succeeds. Nothing is asked of `awg` or of the files: a step
that fails ends the command, so each of its steps has had its effect. -/

namespace AmneziaVpnBot.Vpnctl

open Text

variable {cfg : Settings} {e : Env} {s t : Server}

/-! ### Steps -/

theorem Cmd.ofExcept_eq_ok {α : Type} {x : Except Error α} {a : α} :
    Cmd.ofExcept x s = (.ok a, t) ↔ x = .ok a ∧ t = s := by
  cases x with
  | error err => simp [Cmd.ofExcept, Cmd.throw]
  | ok b => simp [Cmd.ofExcept, eq_comm]

theorem Cmd.onError_eq_ok {α : Type} {c : Cmd α} {cleanup : Cmd Unit} {a : α} :
    Cmd.onError c cleanup s = (.ok a, t) ↔ c s = (.ok a, t) := by
  cases hc : c s with
  | mk result u => cases result <;> simp [Cmd.onError, hc]

theorem writePrivate_eq_ok {path : Path} {text : Text} (h : writePrivate cfg e path text s = (.ok (), t)) :
    t = s.write text path := by
  rw [writePrivate] at h
  split at h
  · cases h
  · exact (Prod.mk.inj h).2.symm

theorem awgSetPeer_eq_ok {pub psk ips : Option Text} (h : awgSetPeer cfg e pub psk ips s = (.ok (), t)) :
    ∃ pub' psk' ips', pub = some pub' ∧ psk = some psk' ∧ ips = some ips' ∧ t = s.setPeer pub' psk' ips' := by
  unfold awgSetPeer at h
  split at h
  · obtain ⟨_, u, hrun, hset⟩ := Cmd.bind_eq_ok.mp h
    obtain ⟨-, rfl⟩ := Cmd.ofExcept_eq_ok.mp hrun
    exact ⟨_, _, _, rfl, rfl, rfl, (Prod.mk.inj hset).2.symm⟩
  · cases h

theorem removeKey_eq_ok {pub : Option Text} (h : removeKey cfg e pub s = (.ok (), t)) : t = s.dropKey pub := by
  cases pub with
  | none => exact (Prod.mk.inj h).2.symm
  | some pub =>
    obtain ⟨_, u, hrun, h₁⟩ := Cmd.bind_eq_ok.mp h
    obtain ⟨-, rfl⟩ := Cmd.ofExcept_eq_ok.mp hrun
    exact (Prod.mk.inj h₁).2.symm

theorem saveBlock_eq_ok {name block : Text} (h : saveBlock cfg e name block s = (.ok (), t)) :
    t = s.saveBlock name block := by
  rw [saveBlock, Cmd.get_bind] at h
  rw [Server.saveBlock]
  split
  · rename_i hnone
    rw [if_pos hnone] at h
    exact writePrivate_eq_ok h
  · rename_i hsome
    rw [if_neg hsome] at h
    exact (Prod.mk.inj h).2.symm

theorem setPeerOf_eq_ok {block : Text} (h : setPeerOf cfg e block s = (.ok (), t)) :
    ∃ pub psk ips, peerValues block = some (pub, psk, ips) ∧ t = s.setPeer pub psk ips := by
  obtain ⟨pub, psk, ips, hpub, hpsk, hips, ht⟩ := awgSetPeer_eq_ok h
  exact ⟨pub, psk, ips, by rw [peerValues, hpub, hpsk, hips]; rfl, ht⟩

/-! ### Commands -/

/-- A create that succeeds found the client's config, or carried out a plan. -/
theorem createPeer_done {id label : Text} {r : PeerResult} (h : createPeer cfg e id label s = (.ok r, t)) :
    validateIdentifier "label".toList label = .ok label ∧
      ((∃ text, s.readClientFile label .conf = some text ∧ t = s) ∨
        ∃ p, s.readClientFile label .conf = none ∧ planCreate cfg e s = .ok p ∧ t = s.created label p ∧
          r = peerResult label p.clientConf (some p.allowedIps) (some false)) := by
  obtain ⟨_, u, huuid, h₁⟩ := Cmd.bind_eq_ok.mp h
  obtain ⟨-, rfl⟩ := Cmd.ofExcept_eq_ok.mp huuid
  obtain ⟨name, v, hname, h₂⟩ := Cmd.bind_eq_ok.mp h₁
  obtain ⟨hvalid, rfl⟩ := Cmd.ofExcept_eq_ok.mp hname
  obtain rfl := validateIdentifier_eq_ok hvalid
  refine ⟨hvalid, ?_⟩
  rw [Cmd.get_bind] at h₂
  cases hfile : v.readClientFile name .conf with
  | some text =>
    simp only [hfile] at h₂
    exact .inl ⟨text, rfl, (Prod.mk.inj h₂).2.symm⟩
  | none =>
    simp only [hfile] at h₂
    obtain ⟨p, w, hplan, h₃⟩ := Cmd.bind_eq_ok.mp h₂
    obtain ⟨hplanned, rfl⟩ := Cmd.ofExcept_eq_ok.mp hplan
    obtain ⟨_, x, hset, h₄⟩ := Cmd.bind_eq_ok.mp h₃
    obtain ⟨pub, psk, ips, hpub, hpsk, hips, rfl⟩ := awgSetPeer_eq_ok hset
    obtain ⟨_, y, hfiles, h₅⟩ := Cmd.bind_eq_ok.mp h₄
    obtain ⟨_, y₁, hpeer, hfiles⟩ := Cmd.bind_eq_ok.mp (Cmd.onError_eq_ok.mp hfiles)
    obtain ⟨_, y₂, hconf, hclient⟩ := Cmd.bind_eq_ok.mp hfiles
    obtain rfl := writePrivate_eq_ok hpeer
    obtain rfl := writePrivate_eq_ok hconf
    obtain rfl := writePrivate_eq_ok hclient
    obtain ⟨hr, rfl⟩ := Prod.mk.inj h₅
    refine .inr ⟨p, rfl, hplanned, ?_, (Except.ok.inj hr).symm⟩
    rw [Server.created, Option.some.inj hpub, Option.some.inj hpsk, Option.some.inj hips]

/-- A client that has a config gets it again. -/
theorem createPeer_existing {id label text : Text} {r : PeerResult} (h : createPeer cfg e id label s = (.ok r, t))
    (hfile : s.readClientFile label .conf = some text) : r = peerResult label text none (some true) := by
  obtain ⟨_, u, huuid, h₁⟩ := Cmd.bind_eq_ok.mp h
  obtain ⟨-, rfl⟩ := Cmd.ofExcept_eq_ok.mp huuid
  obtain ⟨name, v, hname, h₂⟩ := Cmd.bind_eq_ok.mp h₁
  obtain ⟨hvalid, rfl⟩ := Cmd.ofExcept_eq_ok.mp hname
  obtain rfl := validateIdentifier_eq_ok hvalid
  rw [Cmd.get_bind] at h₂
  simp only [hfile] at h₂
  exact (Except.ok.inj (Prod.mk.inj h₂).1).symm

/-- A disable that succeeds found no block, or took it out and saved it where none was saved. -/
theorem disablePeer_done {name : Text} {r : FoundResult} (h : disablePeer cfg e name s = (.ok r, t)) :
    ∃ conf, s.conf = some conf ∧
      ((findPeer conf name = none ∧ t = s ∧ r = ⟨name, (s.readClientFile name .peer).isSome⟩) ∨
        ∃ block pub, findPeer conf name = some (block, pub) ∧ r = ⟨name, true⟩ ∧
          t = ((s.saveBlock name block).write (withoutPeer conf name) .server).dropKey pub) := by
  obtain ⟨name', u, hname, h₁⟩ := Cmd.bind_eq_ok.mp h
  obtain ⟨hvalid, rfl⟩ := Cmd.ofExcept_eq_ok.mp hname
  obtain rfl := validateIdentifier_eq_ok hvalid
  rw [Cmd.get_bind] at h₁
  obtain ⟨conf, v, hconf, h₂⟩ := Cmd.bind_eq_ok.mp h₁
  obtain ⟨hread, rfl⟩ := Cmd.ofExcept_eq_ok.mp hconf
  refine ⟨conf, of_readConf hread, ?_⟩
  cases hfind : findPeer conf name' with
  | none =>
    simp only [hfind] at h₂
    obtain ⟨hr, ht⟩ := Prod.mk.inj h₂
    exact .inl ⟨rfl, ht.symm, (Except.ok.inj hr).symm⟩
  | some found =>
    obtain ⟨block, pub⟩ := found
    simp only [hfind] at h₂
    obtain ⟨_, w, hsave, h₃⟩ := Cmd.bind_eq_ok.mp h₂
    obtain ⟨_, x, hwrite, h₄⟩ := Cmd.bind_eq_ok.mp h₃
    obtain ⟨_, y, hremove, h₅⟩ := Cmd.bind_eq_ok.mp h₄
    obtain rfl := saveBlock_eq_ok hsave
    obtain rfl := writePrivate_eq_ok hwrite
    obtain rfl := removeKey_eq_ok hremove
    obtain ⟨hr, ht⟩ := Prod.mk.inj h₅
    exact .inr ⟨block, pub, rfl, (Except.ok.inj hr).symm, ht.symm⟩

/-- An enable that succeeds set up the live peer of the block in the config, or of the saved block it put back. -/
theorem enablePeer_done {name : Text} {r : FoundResult} (h : enablePeer cfg e name s = (.ok r, t)) :
    ∃ conf block pub psk ips, s.conf = some conf ∧ peerValues block = some (pub, psk, ips) ∧
      ((∃ key, findPeer conf name = some (block, key) ∧ t = s.setPeer pub psk ips) ∨
        findPeer conf name = none ∧ s.readClientFile name .peer = some block ∧
          t = (s.write (addBlock conf (rstripNl block ++ ['\n'])) .server).setPeer pub psk ips) := by
  obtain ⟨name', u, hname, h₁⟩ := Cmd.bind_eq_ok.mp h
  obtain ⟨hvalid, rfl⟩ := Cmd.ofExcept_eq_ok.mp hname
  obtain rfl := validateIdentifier_eq_ok hvalid
  rw [Cmd.get_bind] at h₁
  obtain ⟨conf, v, hconf, h₂⟩ := Cmd.bind_eq_ok.mp h₁
  obtain ⟨hread, rfl⟩ := Cmd.ofExcept_eq_ok.mp hconf
  cases hfind : findPeer conf name' with
  | some found =>
    obtain ⟨block, key⟩ := found
    simp only [hfind] at h₂
    obtain ⟨_, w, hset, h₃⟩ := Cmd.bind_eq_ok.mp h₂
    obtain ⟨pub, psk, ips, hvalues, rfl⟩ := setPeerOf_eq_ok hset
    exact ⟨conf, block, pub, psk, ips, of_readConf hread, hvalues, .inl ⟨key, hfind, (Prod.mk.inj h₃).2.symm⟩⟩
  | none =>
    simp only [hfind] at h₂
    cases hsaved : v.readClientFile name' .peer with
    | none =>
      simp only [hsaved] at h₂
      cases h₂
    | some block =>
      simp only [hsaved] at h₂
      obtain ⟨_, w, hcheck, h₃⟩ := Cmd.bind_eq_ok.mp h₂
      obtain ⟨-, rfl⟩ := Cmd.ofExcept_eq_ok.mp hcheck
      obtain ⟨_, x, hwrite, h₄⟩ := Cmd.bind_eq_ok.mp h₃
      obtain rfl := writePrivate_eq_ok hwrite
      obtain ⟨_, y, hset, h₅⟩ := Cmd.bind_eq_ok.mp h₄
      obtain ⟨pub, psk, ips, hvalues, rfl⟩ := setPeerOf_eq_ok hset
      exact ⟨conf, block, pub, psk, ips, of_readConf hread, hvalues, .inr ⟨hfind, rfl, (Prod.mk.inj h₅).2.symm⟩⟩

/-- A remove that succeeds took out the block, the live peer and both files. -/
theorem removePeer_done {name : Text} {r : FoundResult} (h : removePeer cfg e name s = (.ok r, t)) :
    ∃ conf, s.conf = some conf ∧ t = ((s.unlisted conf name).1.dropKey (s.unlisted conf name).2).withoutFiles name := by
  have hfinish : ∀ {name : Text} {pub : Option Text} {s : Server}, finishRemove cfg e name pub s = (.ok r, t) →
      t = (s.dropKey pub).withoutFiles name := by
    intro name pub s h
    obtain ⟨_, w, hremove, h₁⟩ := Cmd.bind_eq_ok.mp h
    obtain rfl := removeKey_eq_ok hremove
    exact (Prod.mk.inj h₁).2.symm
  obtain ⟨name', u, hname, h₁⟩ := Cmd.bind_eq_ok.mp h
  obtain ⟨hvalid, rfl⟩ := Cmd.ofExcept_eq_ok.mp hname
  obtain rfl := validateIdentifier_eq_ok hvalid
  rw [Cmd.get_bind] at h₁
  obtain ⟨conf, v, hconf, h₂⟩ := Cmd.bind_eq_ok.mp h₁
  obtain ⟨hread, rfl⟩ := Cmd.ofExcept_eq_ok.mp hconf
  refine ⟨conf, of_readConf hread, ?_⟩
  rw [Server.unlisted]
  cases hfind : findPeer conf name' with
  | some found =>
    obtain ⟨block, pub⟩ := found
    simp only [hfind] at h₂
    obtain ⟨_, w, hwrite, h₃⟩ := Cmd.bind_eq_ok.mp h₂
    obtain rfl := writePrivate_eq_ok hwrite
    exact hfinish h₃
  | none =>
    simp only [hfind] at h₂
    exact hfinish h₂

end AmneziaVpnBot.Vpnctl
