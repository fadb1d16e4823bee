import AmneziaVpnBot.Vpnctl.Roster
import AmneziaVpnBot.Lib.Machine

/-! Runs in which every call succeeds. From a server without clients, the config, the client
files and the live interface always represent one roster, and `peer-status` reports it. -/

namespace AmneziaVpnBot.Vpnctl

open Text

/-- Every call succeeds. -/
structure Env.AllOk (e : Env) : Prop where
  files : e.FilesOk
  awg : ∀ call, e.awgError call = none

/-- The public keys in the saved blocks. -/
def Server.savedKeys (s : Server) : List Text := s.savedTexts.filterMap fun t => getValue (savedLines t) publicKey

/-- The next keys are words, and the public key is in no saved block. -/
structure Env.FreshKeys (e : Env) (s : Server) : Prop where
  pub : IsWord e.newPub
  psk : IsWord e.newPsk
  new : e.newPub ∉ s.savedKeys

theorem mem_savedTexts {s : Server} {n t : Text} (h : s.readClientFile n .peer = some t) : t ∈ s.savedTexts := by
  have hmem : ⟨n ++ Ext.peer.text, t⟩ ∈ s.clients.entries := AList.mem_lookup_iff.mp h
  refine List.mem_map.mpr ⟨_, List.mem_filter.mpr ⟨hmem, ?_⟩, rfl⟩
  exact List.isSuffixOf_iff_suffix.mpr (List.suffix_append _ _)

theorem Represents.mem_savedKeys {s : Server} {r : Roster} (hr : Represents s r) {n : Text} {p : Peer}
    (hp : r.saved n = some p) : p.pub ∈ s.savedKeys := by
  refine List.mem_filterMap.mpr ⟨p.block, mem_savedTexts (n := n) (by rw [hr.peerFile, hp]; rfl), ?_⟩
  rw [getValue_savedLines p.plain_block (by decide), p.publicKey_block]

@[simp] theorem liveAs_write (s : Server) (t : Text) (p : Path) : (s.write t p).liveAs = s.liveAs := by
  funext k
  rw [Server.liveAs, live_write, Server.liveAs]

section
variable {cfg : Settings} {e : Env} {s : Server} {r : Roster}

theorem represents_empty {conf : Text} (hconf : s.conf = some conf) (hblocks : blocks conf = [])
    (hfiles : ∀ n x, s.readClientFile n x = none) (hlive : ∀ k, s.live k = none) : Represents s .empty where
  conf := ⟨conf, hconf, hblocks⟩
  peerFile n := hfiles n .peer
  confFile n := by
    rw [hfiles]
    rfl
  live k v := by simp [Server.liveAs, hlive, Roster.empty]

/-! ### One command -/

theorem represents_create (hr : Represents s r) (he : e.AllOk) {label : Text} (hname : isIdentifier label = true)
    (hkeys : e.FreshKeys s) (id : Text) : ∃ r', Represents (createPeer cfg e id label s).2 r' := by
  rcases createPeer_cases cfg he.files id label s with ⟨r', h⟩ | ⟨p, hnew, hplan, h⟩
  · exact ⟨r, by rwa [h]⟩
  obtain ⟨conf, -, -, -, -, ip, hconf, -, -, hpub, hpsk, hips, hpconf⟩ := planCreate_eq_ok hplan
  obtain ⟨hpubWord, hpskWord, hfresh⟩ := hkeys
  let peer : Peer :=
    ⟨label, e.newPub, e.newPsk, ip.text ++ "/32".toList, isWord_of_isIdentifier hname, hpubWord, hpskWord,
      isWord_allowedIps ip⟩
  have hblock : peerBlock label p.pub p.psk p.allowedIps = peer.block := by rw [hpub, hpsk, hips]; rfl
  have hsaved : r.saved label = none := by
    have := hr.confFile label
    rwa [hnew, Option.isSome_none, eq_comm, Option.isSome_eq_false_iff, Option.isNone_iff_eq_none] at this
  have hfreshKey : ∀ n q, r.saved n = some q → q.pub ≠ peer.pub := by
    intro n q hq hpubEq
    have hmem := hr.mem_savedKeys hq
    rw [hpubEq] at hmem
    exact hfresh hmem
  refine ⟨r.add peer hsaved hfreshKey, ?_⟩
  rw [h]
  constructor
  · refine ⟨_, rfl, ?_⟩
    rw [hblock, blocks_addBlock peer.isPeer_block, hpconf, hr.blocks hconf]
    simp [Roster.add]
  · intro n
    simp only [Server.created, readClientFile_write, readClientFile_write_server, readClientFile_setPeer,
      hblock, reduceCtorEq, and_false, and_true, if_false, Roster.add, Function.update_apply, hr.peerFile]
    split_ifs <;> rfl
  · intro n
    simp only [Server.created, readClientFile_write, readClientFile_write_server, readClientFile_setPeer,
      hblock, reduceCtorEq, and_false, and_true, if_false, Roster.add, Function.update_apply]
    rw [apply_ite Option.isSome, hr.confFile]
    split_ifs <;> rfl
  · intro k v
    simp only [Server.created, liveAs_write, liveAs_setPeer, hpub, hpsk, hips, hpskWord.strip]
    have hold : ∀ q ∈ r.enabled, q.pub ≠ e.newPub := fun q hq => hfreshKey q.name q (r.listed q hq)
    simp only [Roster.add, List.mem_append, List.mem_singleton]
    split_ifs with hk
    · rw [hk]
      constructor
      · exact fun hv => ⟨peer, .inr rfl, rfl, Option.some.inj hv⟩
      · rintro ⟨q, hq | rfl, hqk, rfl⟩
        · exact absurd hqk (hold q hq)
        · rfl
    · rw [hr.live]
      constructor
      · rintro ⟨q, hq, h⟩
        exact ⟨q, .inl hq, h⟩
      · rintro ⟨q, hq | rfl, hqk, hv⟩
        · exact ⟨q, hq, hqk, hv⟩
        · exact absurd hqk.symm hk

theorem represents_disable (hr : Represents s r) (he : e.AllOk) (name : Text) :
    ∃ r', Represents (disablePeer cfg e name s).2 r' := by
  rcases disablePeer_cases cfg he.files name s with ⟨err, h⟩ | ⟨conf, hconf, ⟨-, h⟩ | ⟨block, pub, hfind, h⟩⟩
  · exact ⟨r, by rwa [h]⟩
  · exact ⟨r, by rwa [h]⟩
  obtain ⟨p, hp, rfl, -, rfl⟩ := hr.of_findPeer_some hconf hfind
  have hsaved : s.readClientFile p.name .peer = some p.block := by rw [hr.peerFile, r.listed p hp, Option.map_some]
  have hsave : s.saveBlock p.name block = s := by rw [Server.saveBlock, hsaved]; rfl
  rcases h with ⟨-, h⟩ | ⟨⟨hawg, -⟩, -⟩
  · refine ⟨r.turnOff p.name, ?_⟩
    rw [h, hsave]
    constructor
    · refine ⟨withoutPeer conf p.name, by simp, ?_⟩
      rw [blocks_withoutPeer, hr.blocks hconf, List.filter_map]
      refine congrArg _ (List.filter_congr fun q _ => ?_)
      simp
    · intro n
      simpa using hr.peerFile n
    · intro n
      simpa using hr.confFile n
    · intro k v
      rw [liveAs_dropKey, liveAs_write]
      simp only [Roster.turnOff, List.mem_filter, decide_eq_true_eq, Option.some.injEq]
      split_ifs with hk
      · refine iff_of_false (by simp) ?_
        rintro ⟨q, ⟨hq, hne⟩, hqk, -⟩
        exact hne (r.name_of_pub hq hp (hqk.trans hk.symm))
      · rw [hr.live]
        constructor
        · rintro ⟨q, hq, hqk, hv⟩
          refine ⟨q, ⟨hq, fun hn => hk ?_⟩, hqk, hv⟩
          have hqp : q = p := r.eq_of_mem hp (hn ▸ r.listed q hq)
          rw [← hqk, hqp]
        · rintro ⟨q, hq, h⟩
          exact ⟨q, hq.1, h⟩
  · exact absurd (he.awg _) hawg

theorem represents_enable (hr : Represents s r) (he : e.AllOk) (name : Text) :
    ∃ r', Represents (enablePeer cfg e name s).2 r' := by
  rcases enablePeer_cases cfg he.files name s with
    ⟨err, h⟩ | ⟨conf, hconf, ⟨block, key, pub, psk, ips, hfind, -, hvalues, h⟩ | ⟨block, hfind, hsaved, -, h⟩⟩
  · exact ⟨r, by rwa [h]⟩
  · obtain ⟨p, hp, rfl, hblock, -⟩ := hr.of_findPeer_some hconf hfind
    rw [peerValues_of_rstripNl hblock] at hvalues
    obtain ⟨rfl, rfl, rfl⟩ : p.pub = pub ∧ p.psk = psk ∧ p.ips = ips := by simpa using hvalues
    refine ⟨r, ?_⟩
    rw [h]
    refine ⟨hr.conf, hr.peerFile, hr.confFile, fun k v => ?_⟩
    rw [liveAs_setPeer, p.psk_word.strip]
    split_ifs with hk
    · rw [hk, ← hr.live, (hr.live p.pub (p.psk, p.ips)).mpr ⟨p, hp, rfl, rfl⟩]
    · exact hr.live k v
  · obtain ⟨p, hp, rfl⟩ : ∃ p, r.saved name = some p ∧ p.block = block := by
      rw [hr.peerFile] at hsaved
      simpa using hsaved
    obtain rfl := r.name_eq _ _ hp
    rcases h with ⟨pub, psk, ips, -, hvalues, h⟩ | ⟨hawg, -⟩
    · rw [peerValues_of_rstripNl rfl] at hvalues
      obtain ⟨rfl, rfl, rfl⟩ : p.pub = pub ∧ p.psk = psk ∧ p.ips = ips := by simpa using hvalues
      have hoff := hr.of_findPeer_none hconf hfind
      refine ⟨r.turnOn p hp hoff, ?_⟩
      rw [h]
      refine ⟨⟨_, rfl, ?_⟩, fun n => by simpa using hr.peerFile n, fun n => by simpa using hr.confFile n, fun k v => ?_⟩
      · have hblock : IsPeer (rstripNl p.block ++ ['\n']) := by
          rw [isPeer_newline, isPeer_rstripNl]
          exact p.isPeer_block
        rw [blocks_addBlock hblock, hr.blocks hconf, rstripNl_newline, rstripNl_idem]
        simp [Roster.turnOn]
      · rw [liveAs_setPeer, liveAs_write, p.psk_word.strip]
        simp only [Roster.turnOn, List.mem_append, List.mem_singleton]
        split_ifs with hk
        · rw [hk]
          constructor
          · exact fun hv => ⟨p, .inr rfl, rfl, Option.some.inj hv⟩
          · rintro ⟨q, hq | rfl, hqk, rfl⟩
            · exact absurd (r.keys _ _ q p (r.listed q hq) hp hqk) (hoff q hq)
            · rfl
        · rw [hr.live]
          constructor
          · rintro ⟨q, hq, h⟩
            exact ⟨q, .inl hq, h⟩
          · rintro ⟨q, hq | rfl, hqk, hv⟩
            · exact ⟨q, hq, hqk, hv⟩
            · exact absurd hqk.symm hk
    · rw [peerValues_of_rstripNl rfl] at hawg
      exact absurd (he.awg _) (hawg.resolve_right (by simp))

/-- Both ways into a removal go on with the client's key and without its block. -/
theorem Represents.unlisted (hr : Represents s r) {conf : Text} (hconf : s.conf = some conf) (name : Text) :
    ∃ t conf', s.unlisted conf name = (t, (r.saved name).map Peer.pub) ∧ t.conf = some conf' ∧ t.clients = s.clients ∧
      t.live = s.live ∧ Vpnctl.blocks conf' = (r.drop name).enabled.map fun p => rstripNl p.block := by
  rw [Server.unlisted]
  cases hfind : Vpnctl.findPeer conf name with
  | none =>
    refine ⟨s, conf, by simp only [hr.savedKey], hconf, rfl, rfl, ?_⟩
    have hoff : (r.drop name).enabled = r.enabled :=
      List.filter_eq_self.mpr fun p hp => by simpa using hr.of_findPeer_none hconf hfind p hp
    rw [hr.blocks hconf, hoff]
  | some found =>
    obtain ⟨block, pub⟩ := found
    obtain ⟨p, hp, rfl, -, rfl⟩ := hr.of_findPeer_some hconf hfind
    refine ⟨s.write (withoutPeer conf p.name) .server, withoutPeer conf p.name, ?_, rfl, rfl, rfl, ?_⟩
    · rw [r.listed p hp, Option.map_some]
    · rw [blocks_withoutPeer, hr.blocks hconf, List.filter_map]
      refine congrArg _ (List.filter_congr fun q _ => ?_)
      simp

theorem represents_remove (hr : Represents s r) (he : e.AllOk) (name : Text) :
    ∃ r', Represents (removePeer cfg e name s).2 r' := by
  rcases removePeer_cases cfg he.files name s with ⟨err, h⟩ | ⟨conf, hconf, h⟩
  · exact ⟨r, by rwa [h]⟩
  obtain ⟨t, conf', hunlisted, hconf', hclients, hlive, hblocks⟩ := hr.unlisted hconf name
  rw [hunlisted] at h
  rcases h with ⟨-, h⟩ | ⟨⟨hawg, -⟩, -⟩
  · refine ⟨r.drop name, ?_⟩
    have hread : ∀ n x, ((t.dropKey ((r.saved name).map Peer.pub)).withoutFiles name).readClientFile n x =
        if n = name then none else s.readClientFile n x := by
      intro n x
      rw [Server.withoutFiles, readClientFile_remove, readClientFile_remove, readClientFile_dropKey,
        Server.readClientFile, hclients, ← Server.readClientFile]
      cases x <;> by_cases hn : n = name <;> simp [hn]
    rw [h]
    constructor
    · exact ⟨conf', by simp [Server.withoutFiles, hconf'], hblocks⟩
    · intro n
      simp only [hread, Roster.drop, Function.update_apply, hr.peerFile]
      split_ifs <;> rfl
    · intro n
      simp only [hread, Roster.drop, Function.update_apply]
      rw [apply_ite Option.isSome, hr.confFile]
      split_ifs <;> rfl
    · intro k v
      have hk : ((t.dropKey ((r.saved name).map Peer.pub)).withoutFiles name).liveAs k =
          if (r.saved name).map Peer.pub = some k then none else s.liveAs k := by
        rw [show s.liveAs k = t.liveAs k by rw [Server.liveAs, Server.liveAs, hlive], ← liveAs_dropKey]
        rfl
      rw [hk]
      simp only [Roster.drop, List.mem_filter, decide_eq_true_eq, Option.map_eq_some_iff]
      split_ifs with hpub
      · obtain ⟨p, hp, rfl⟩ := hpub
        refine iff_of_false (by simp) ?_
        rintro ⟨q, ⟨hq, hne⟩, hqk, -⟩
        exact hne (r.keys _ _ q p (r.listed q hq) hp hqk)
      · rw [hr.live]
        constructor
        · rintro ⟨q, hq, hqk, hv⟩
          exact ⟨q, ⟨hq, fun hn => hpub ⟨q, hn ▸ r.listed q hq, hqk⟩⟩, hqk, hv⟩
        · rintro ⟨q, hq, h⟩
          exact ⟨q, hq.1, h⟩
  · exact absurd (he.awg _) hawg

end

/-! ### Runs -/

/-- A command for a client's name in which nothing fails and the keys are new. -/
structure Smooth (s : Server) (a : Command × Env) : Prop where
  name : isIdentifier a.1.name = true
  ok : a.2.AllOk
  fresh : a.2.FreshKeys s

theorem represents_step {cfg : Settings} {s t : Server} {a : Command × Env} (hs : ∃ r, Represents s r) (ha : Smooth s a)
    (h : step cfg s a = some t) : ∃ r, Represents t r := by
  obtain ⟨r, hr⟩ := hs
  obtain ⟨command, e⟩ := a
  obtain rfl := Option.some.inj h
  cases command with
  | create id label =>
    simp only [Command.exec, Cmd.snd_return]
    exact represents_create hr ha.ok ha.name ha.fresh id
  | disable name =>
    simp only [Command.exec, Cmd.snd_return]
    exact represents_disable hr ha.ok name
  | enable name =>
    simp only [Command.exec, Cmd.snd_return]
    exact represents_enable hr ha.ok name
  | remove name =>
    simp only [Command.exec, Cmd.snd_return]
    exact represents_remove hr ha.ok name

/-! ### Agreement -/

/-- The clients' blocks in the server's config. -/
def Server.blocks (s : Server) : List Text := s.conf.elim [] Vpnctl.blocks

/-- Config, live interface and client files agree. -/
structure Agree (s : Server) : Prop where
  names : (s.blocks.map blockName).Nodup
  live : ∀ k v, s.liveAs k = some v ↔
    ∃ b ∈ s.blocks, blockValue publicKey b = some k ∧ blockValue presharedKey b = some v.1 ∧
      blockValue allowedIpsKey b = some v.2
  files : ∀ name, (s.readClientFile name .conf).isSome = (s.readClientFile name .peer).isSome
  saved : ∀ b ∈ s.blocks, ∃ name saved, blockName b = some name ∧ s.readClientFile name .peer = some saved ∧
    rstripNl saved = b

/-- What `peer-status` says of a client agrees with its files and its block. -/
def Reports (cfg : Settings) (s : Server) (e : Env) (now : ℕ) (name : Text) : Prop :=
  ∃ st, peerStatus cfg e now name s = (.ok st, s) ∧
    (st.exists' = true ↔ (s.readClientFile name .peer).isSome = true) ∧
    (st.enabled = true ↔ some name ∈ s.blocks.map blockName)

/-- A server that is set up, without clients. -/
structure Server.New (s : Server) : Prop where
  conf : ∃ conf, s.conf = some conf ∧ Vpnctl.blocks conf = []
  clients : s.clients = ∅
  live : ∀ k, s.live k = none

section
variable {cfg : Settings} {s : Server} {r : Roster}

theorem Represents.server_blocks (hr : Represents s r) : s.blocks = r.enabled.map fun p => rstripNl p.block := by
  obtain ⟨conf, hconf, hblocks⟩ := hr.conf
  rw [Server.blocks, hconf, ← hblocks]
  rfl

theorem Represents.names (hr : Represents s r) : s.blocks.map blockName = r.enabled.map fun p => some p.name := by
  rw [hr.server_blocks, List.map_map]
  exact List.map_congr_left fun p _ => by simp

theorem Represents.agree (hr : Represents s r) : Agree s where
  names := by
    have hmap : (r.enabled.map fun p => some p.name) = (r.enabled.map Peer.name).map some := by simp
    rw [hr.names, hmap]
    exact r.nodup.map fun _ _ => Option.some.inj
  live k v := by
    rw [hr.live, hr.server_blocks]
    constructor
    · rintro ⟨p, hp, rfl, rfl⟩
      refine ⟨_, List.mem_map_of_mem hp, ?_⟩
      simp [blockValue_rstripNl (by decide : IsWord publicKey), blockValue_rstripNl (by decide : IsWord presharedKey),
        blockValue_rstripNl (by decide : IsWord allowedIpsKey)]
    · rintro ⟨b, hb, hpub, hpsk, hips⟩
      obtain ⟨p, hp, rfl⟩ := List.mem_map.mp hb
      rw [blockValue_rstripNl (by decide), p.publicKey_block] at hpub
      rw [blockValue_rstripNl (by decide), p.presharedKey_block] at hpsk
      rw [blockValue_rstripNl (by decide), p.allowedIps_block] at hips
      exact ⟨p, hp, Option.some.inj hpub, Prod.ext (Option.some.inj hpsk) (Option.some.inj hips)⟩
  files name := by rw [hr.confFile, hr.peerFile, Option.isSome_map]
  saved b hb := by
    rw [hr.server_blocks] at hb
    obtain ⟨p, hp, rfl⟩ := List.mem_map.mp hb
    exact ⟨p.name, p.block, by simp, by rw [hr.peerFile, r.listed p hp, Option.map_some], rfl⟩

theorem Represents.reports (hr : Represents s r) {e : Env} (he : e.AllOk) {name : Text}
    (hname : isIdentifier name = true)
    (now : ℕ) : Reports cfg s e now name := by
  have hname : validateIdentifier "peer_id".toList name = .ok name := by
    have hend : beforeNewline name = name := by
      rw [beforeNewline, if_neg]
      intro hlast
      have hword := isWord_of_isIdentifier hname
      simpa using hword.2 '\n' (List.mem_of_getLast? hlast)
    rw [validateIdentifier, hend, if_pos hname]
  obtain ⟨conf, hconf, -⟩ := hr.conf
  rw [Reports, peerStatus, hname, Cmd.ofExcept_ok_bind, Cmd.get_bind, readConf_ok hconf, Cmd.ofExcept_ok_bind,
    hr.names, hr.peerFile, Option.isSome_map, List.mem_map]
  simp only [hr.savedKey]
  cases hfind : Vpnctl.findPeer conf name with
  | none =>
    have hoff : ¬ ∃ p ∈ r.enabled, some p.name = some name := by
      rintro ⟨p, hp, hpn⟩
      exact hr.of_findPeer_none hconf hfind p hp (Option.some.inj hpn)
    cases hsaved : r.saved name with
    | none => exact ⟨_, rfl, by simp, iff_of_false (by simp) hoff⟩
    | some p => exact ⟨_, rfl, by simp, iff_of_false (by simp) hoff⟩
  | some found =>
    obtain ⟨block, pub⟩ := found
    obtain ⟨p, hp, rfl, -, rfl⟩ := hr.of_findPeer_some hconf hfind
    simp only [Option.bind_some, Option.isNone_some, Bool.false_eq_true, if_false, awgRun_ok (he.awg _),
      Cmd.ofExcept_ok_bind]
    exact ⟨_, rfl, by simp [r.listed p hp], iff_of_true rfl ⟨p, hp, rfl⟩⟩

/-- After every command of a run from a server without clients, config, live interface and
files agree, and every client's status says so. -/
theorem agree_run {t : Server} {as : List (Command × Env)} (hnew : s.New)
    (hsmooth : Machine.Along (step cfg) Smooth s as)
    (h : Machine.run (step cfg) s as = some t) :
    Agree t ∧ ∀ (e : Env) (now : ℕ) (name : Text), e.AllOk → isIdentifier name = true → Reports cfg t e now name := by
  obtain ⟨conf, hconf, hblocks⟩ := hnew.conf
  have hfiles : ∀ n x, s.readClientFile n x = none := by
    intro n x
    rw [Server.readClientFile, hnew.clients, AList.lookup_empty]
  obtain ⟨r, hr⟩ := Machine.invariant_along (I := fun u => ∃ r, Represents u r)
    (fun _ _ _ hs ha hstep => represents_step hs ha hstep) hsmooth h
      ⟨_, represents_empty hconf hblocks hfiles hnew.live⟩
  exact ⟨hr.agree, fun e now name he hname => hr.reports he hname now⟩

end

/-! ### A small run -/

theorem smallEnv_allOk (key : Text) : (smallEnv key).AllOk := ⟨fun _ => rfl, fun _ => rfl⟩

instance (e : Env) (s : Server) : Decidable (e.FreshKeys s) :=
  decidable_of_iff (IsWord e.newPub ∧ IsWord e.newPsk ∧ e.newPub ∉ s.savedKeys)
    ⟨fun h => ⟨h.1, h.2.1, h.2.2⟩, fun h => ⟨h.pub, h.psk, h.new⟩⟩

theorem smallServer_new : smallServer.New := by
  refine ⟨⟨_, rfl, ?_⟩, rfl, fun _ => rfl⟩
  decide +kernel

theorem smooth_small {s : Server} {c : Command} {key : Text} (hname : isIdentifier c.name = true)
    (hfresh : (smallEnv key).FreshKeys s) : Smooth s (c, smallEnv key) :=
  ⟨hname, smallEnv_allOk key, hfresh⟩

/-- Two clients are made, one is turned off and on again, the other is removed. -/
def smallRun : List (Command × Env) :=
  [(.create smallId "a".toList, smallEnv "azE=".toList), (.create smallId "b".toList, smallEnv "azI=".toList),
    (.disable "a".toList, smallEnv "azM=".toList), (.enable "a".toList, smallEnv "azM=".toList),
    (.remove "b".toList, smallEnv "azM=".toList)]

theorem smallRun_smooth : Machine.Along (step smallSettings) Smooth smallServer smallRun := by
  refine ⟨smooth_small (by decide +kernel) (by decide +kernel), fun t ht => ?_⟩
  obtain rfl := Option.some.inj ht
  refine ⟨smooth_small (by decide +kernel) (by decide +kernel), fun t ht => ?_⟩
  obtain rfl := Option.some.inj ht
  refine ⟨smooth_small (by decide +kernel) (by decide +kernel), fun t ht => ?_⟩
  obtain rfl := Option.some.inj ht
  refine ⟨smooth_small (by decide +kernel) (by decide +kernel), fun t ht => ?_⟩
  obtain rfl := Option.some.inj ht
  exact ⟨smooth_small (by decide +kernel) (by decide +kernel), fun _ _ => trivial⟩

theorem agree_run_small :
    ∃ t, Machine.run (step smallSettings) smallServer smallRun = some t ∧ Agree t ∧
      ∀ (e : Env) (now : ℕ) (name : Text), e.AllOk → isIdentifier name = true → Reports smallSettings t e now name := by
  have hrun : ∃ t, Machine.run (step smallSettings) smallServer smallRun = some t := ⟨_, rfl⟩
  obtain ⟨t, h⟩ := hrun
  exact ⟨t, h, agree_run smallServer_new smallRun_smooth h⟩

end AmneziaVpnBot.Vpnctl
