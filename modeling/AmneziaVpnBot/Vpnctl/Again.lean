import AmneziaVpnBot.Vpnctl.Agree

/-! The same request twice. A request that was carried out finds its work done the second
time: it gives the same answer and leaves the server as it is, as long as every saved block
is that of the client it is saved for. -/

namespace AmneziaVpnBot.Vpnctl

open Text

/-- Each saved block is a block of the client it is saved for. -/
def Server.Saved (s : Server) : Prop :=
  ∀ name text, s.readClientFile name .peer = some text → IsPeer text ∧ blockName text = some name

/-- The same config and files, and the same peers live, whatever these have sent and received. -/
structure Server.Alike (s t : Server) : Prop where
  conf : s.conf = t.conf
  clients : s.clients = t.clients
  live : s.liveAs = t.liveAs

/-- The next keys are words. -/
structure Env.WordKeys (e : Env) : Prop where
  pub : IsWord e.newPub
  psk : IsWord e.newPsk

instance (e : Env) : Decidable e.WordKeys :=
  decidable_of_iff (IsWord e.newPub ∧ IsWord e.newPsk) ⟨fun h => ⟨h.1, h.2⟩, fun h => ⟨h.pub, h.psk⟩⟩

variable {cfg : Settings} {e e₁ e₂ : Env} {s s₁ s₂ t : Server} {conf name : Text}

namespace Server.Alike

theorem refl (s : Server) : s.Alike s := ⟨rfl, rfl, rfl⟩

theorem readClientFile (h : s.Alike t) (n : Text) (x : Ext) : t.readClientFile n x = s.readClientFile n x := by
  rw [Server.readClientFile, Server.readClientFile, h.clients]

/-- Setting up a live peer that is set up that way already. -/
theorem setPeer_setPeer {pub psk ips : Text} (h : (s.setPeer pub psk ips).Alike t) :
    (s.setPeer pub psk ips).Alike (t.setPeer pub psk ips) := by
  refine ⟨h.conf, h.clients, funext fun k => ?_⟩
  rw [liveAs_setPeer t, ← h.live, liveAs_setPeer]
  split_ifs <;> rfl

end Server.Alike

namespace Cmd

variable {α β : Type}

theorem of_ofExcept_bind_ok {c : Except Error α} {f : α → Cmd β} {b : β} (h : (ofExcept c >>= f) s = (.ok b, t)) :
    ∃ a, c = .ok a ∧ f a s = (.ok b, t) := by
  cases c with
  | error err => cases h
  | ok a => exact ⟨a, rfl, h⟩

end Cmd

/-! ### Reading after a change -/

theorem findPeer_eq_none : findPeer conf name = none ↔ ∀ b ∈ blocks conf, blockName b ≠ some name := by
  have h := findPeer_map conf name
  rw [← Option.map_eq_none_iff, h, Option.map_eq_none_iff, List.find?_eq_none]
  simp

theorem findPeer_withoutPeer (conf name : Text) : findPeer (withoutPeer conf name) name = none := by
  rw [findPeer_eq_none, blocks_withoutPeer]
  intro b hb
  simpa using (List.mem_filter.mp hb).2

/-- What `find_peer` finds is one block of that name. -/
theorem of_findPeer {block : Text} {pub : Option Text} (h : findPeer conf name = some (block, pub)) :
    IsPeer block ∧ blockName block = some name := by
  have hmap := findPeer_map conf name
  rw [h, Option.map_some, eq_comm, Option.map_eq_some_iff] at hmap
  obtain ⟨b, hb, heq⟩ := hmap
  have hname := List.find?_some hb
  obtain ⟨hpeer, -⟩ := isPeer_of_mem_blocks (List.mem_of_find?_eq_some hb)
  rw [(Prod.mk.inj heq).1] at hname hpeer
  exact ⟨(isPeer_rstripNl _).mp hpeer, by simpa using hname⟩

/-- A saved block that is put back is found, up to newlines at its end. -/
theorem findPeer_addBlock {block : Text} (hpeer : IsPeer block) (hname : blockName block = some name)
    (h : findPeer conf name = none) :
    ∃ found pub, findPeer (addBlock conf (rstripNl block ++ ['\n'])) name = some (found, pub) ∧
      rstripNl found = rstripNl block := by
  have hmap := findPeer_map (addBlock conf (rstripNl block ++ ['\n'])) name
  have hpeer' : IsPeer (rstripNl block ++ ['\n']) := by rwa [isPeer_newline, isPeer_rstripNl]
  have hold : (blocks conf).find? (fun b => blockName b = some name) = none := by
    rw [List.find?_eq_none]
    simpa using findPeer_eq_none.mp h
  rw [blocks_addBlock hpeer', List.find?_append, hold, rstripNl_newline, rstripNl_idem, List.find?_singleton,
    if_pos (by simp [hname]), Option.none_or, Option.map_some, Option.map_eq_some_iff] at hmap
  obtain ⟨⟨found, pub⟩, hfound, heq⟩ := hmap
  exact ⟨found, pub, hfound, (Prod.mk.inj heq).1⟩

theorem getValue_savedLines_newline {key : Text} (hkey : IsWord key) (t : Text) :
    getValue (savedLines (t ++ ['\n'])) key = getValue (savedLines t) key := by
  have hblank : lineValue key [] = none := by
    rw [← lineValue_newline hkey]
    exact lineValue_blank hkey
  have hchomp : chomp ['\n'] = [] := by decide
  unfold getValue savedLines
  rcases splitlines_newline t with h | ⟨ls, l, hunbroken, hl, h⟩
  · rw [h, List.map_append, List.findSome?_append, List.map_singleton, hchomp, List.findSome?_cons, hblank]
    simp
  · have hlast : chomp (l ++ ['\n']) = chomp l := List.rdropWhile_concat_pos _ _ _ rfl
    rw [h, hl, List.map_append, List.map_append, List.map_singleton, List.map_singleton, hlast]

theorem peerValues_rstripNl (block : Text) : peerValues (rstripNl block) = peerValues block := by
  refine eq_rstripNl peerValues (fun t => ?_) block
  rw [peerValues, peerValues, getValue_savedLines_newline (by decide), getValue_savedLines_newline (by decide),
    getValue_savedLines_newline (by decide)]

/-! ### Once more -/

/-- A create that succeeds has the client's config on file, and answers with it. -/
theorem createPeer_ok {id : Text} {r : PeerResult} (he : e.FilesOk) (h : createPeer cfg e id name s = (.ok r, t)) :
    validateUuid id = .ok () ∧ validateIdentifier "label".toList name = .ok name ∧
      t.readClientFile name .conf = some r.config := by
  rw [createPeer] at h
  obtain ⟨⟨⟩, hid, hrest⟩ := Cmd.of_ofExcept_bind_ok h
  obtain ⟨label, hlabel, hbody⟩ := Cmd.of_ofExcept_bind_ok hrest
  obtain rfl := validateIdentifier_eq_ok hlabel
  refine ⟨hid, hlabel, ?_⟩
  rw [Cmd.get_bind] at hbody
  cases hfile : s.readClientFile label .conf with
  | some text =>
    simp only [hfile, Cmd.pure_apply] at hbody
    obtain ⟨hr, rfl⟩ := Prod.mk.inj hbody
    rw [hfile, ← Except.ok.inj hr]
    rfl
  | none =>
    simp only [hfile] at hbody
    obtain ⟨p, -, happly⟩ := Cmd.of_ofExcept_bind_ok hbody
    by_cases hset : e.awgError .setPeer = none
    · rw [applyPlan_ok he hset] at happly
      obtain ⟨hr, rfl⟩ := Prod.mk.inj happly
      rw [← Except.ok.inj hr, Server.created, readClientFile_write, if_pos ⟨rfl, rfl⟩]
      rfl
    · obtain ⟨err, hfail⟩ := applyPlan_failed cfg hset label p s
      rw [hfail] at happly
      cases happly

theorem createPeer_again {id : Text} {r : PeerResult} (he₁ : e₁.AllOk) (h : createPeer cfg e₁ id name s = (.ok r, s₁))
    (hs : s₁.Alike s₂) :
    ∃ r', createPeer cfg e₂ id name s₂ = (.ok r', s₂) ∧ r'.config = r.config := by
  obtain ⟨hid, hlabel, hfile⟩ := createPeer_ok he₁.files h
  refine ⟨peerResult name r.config none (some true), ?_, rfl⟩
  rw [createPeer, hid, Cmd.ofExcept_ok_bind, hlabel, Cmd.ofExcept_ok_bind, Cmd.get_bind, hs.readClientFile, hfile]
  rfl

theorem disablePeer_absent (hname : validateIdentifier "peer_id".toList name = .ok name) (hconf : s.conf = some conf)
    (h : findPeer conf name = none) :
    disablePeer cfg e name s = (.ok ⟨name, (s.readClientFile name .peer).isSome⟩, s) := by
  rw [disablePeer, hname, Cmd.ofExcept_ok_bind, Cmd.get_bind, readConf_ok hconf, Cmd.ofExcept_ok_bind, h]
  rfl

theorem disablePeer_again {r : FoundResult} (he₁ : e₁.AllOk) (h : disablePeer cfg e₁ name s = (.ok r, s₁))
    (hs : s₁.Alike s₂) : ∃ r', disablePeer cfg e₂ name s₂ = (.ok r', s₂) := by
  have hname : validateIdentifier "peer_id".toList name = .ok name := by
    rw [disablePeer] at h
    obtain ⟨name', hname, -⟩ := Cmd.of_ofExcept_bind_ok h
    rwa [validateIdentifier_eq_ok hname] at hname ⊢
  rcases disablePeer_cases cfg he₁.files name s with
    ⟨err, hc⟩ | ⟨conf, hconf, ⟨hnone, hc⟩ | ⟨block, pub, -, ⟨-, hc⟩ | ⟨⟨hawg, -⟩, -⟩⟩⟩
  · rw [hc] at h
    cases h
  · rw [hc] at h
    obtain ⟨-, rfl⟩ := Prod.mk.inj h
    exact ⟨_, disablePeer_absent hname (hs.conf ▸ hconf) hnone⟩
  · rw [hc] at h
    obtain ⟨-, rfl⟩ := Prod.mk.inj h
    have hconf₂ : s₂.conf = some (withoutPeer conf name) := by rw [← hs.conf, conf_dropKey, conf_write_server]
    exact ⟨_, disablePeer_absent hname hconf₂ (findPeer_withoutPeer conf name)⟩
  · exact absurd (he₁.awg _) hawg

/-- An enable of a client whose block is in the config sets up its live peer. -/
theorem enablePeer_listed {block pub psk ips : Text} {key : Option Text} (he : e.AllOk)
    (hname : validateIdentifier "peer_id".toList name = .ok name) (hconf : s.conf = some conf)
    (hfind : findPeer conf name = some (block, key)) (hvalues : peerValues block = some (pub, psk, ips)) :
    enablePeer cfg e name s = (.ok ⟨name, true⟩, s.setPeer pub psk ips) := by
  have hset : setPeerOf cfg e block s = (.ok (), s.setPeer pub psk ips) := by
    rcases setPeerOf_cases cfg (e := e) block s with ⟨pub', psk', ips', -, hv, h⟩ | ⟨hfail, -⟩
    · rw [hvalues] at hv
      simp only [Option.some.injEq, Prod.mk.injEq] at hv
      obtain ⟨rfl, rfl, rfl⟩ := hv
      exact h
    · rw [hvalues] at hfail
      exact absurd (he.awg _) (hfail.resolve_right (by simp))
  rw [enablePeer, hname, Cmd.ofExcept_ok_bind, Cmd.get_bind, readConf_ok hconf, Cmd.ofExcept_ok_bind, hfind]
  simp only [Cmd.bind_of_ok hset, Cmd.pure_apply]

theorem enablePeer_again {r : FoundResult} (hsaved : s.Saved) (he₁ : e₁.AllOk) (he₂ : e₂.AllOk)
    (h : enablePeer cfg e₁ name s = (.ok r, s₁)) (hs : s₁.Alike s₂) :
    ∃ r' s₃, enablePeer cfg e₂ name s₂ = (.ok r', s₃) ∧ s₁.Alike s₃ := by
  have hname : validateIdentifier "peer_id".toList name = .ok name := by
    rw [enablePeer] at h
    obtain ⟨name', hname, -⟩ := Cmd.of_ofExcept_bind_ok h
    rwa [validateIdentifier_eq_ok hname] at hname ⊢
  rcases enablePeer_cases cfg he₁.files name s with
    ⟨err, hc⟩ | ⟨conf, hconf, ⟨block, key, pub, psk, ips, hfind, -, hvalues, hc⟩ |
      ⟨block, hfind, hfile, -, ⟨pub, psk, ips, -, hvalues, hc⟩ | ⟨-, err, hc⟩⟩⟩
  · rw [hc] at h
    cases h
  · rw [hc] at h
    obtain ⟨-, rfl⟩ := Prod.mk.inj h
    exact ⟨_, _, enablePeer_listed he₂ hname (hs.conf ▸ hconf) hfind hvalues, hs.setPeer_setPeer⟩
  · rw [hc] at h
    obtain ⟨-, rfl⟩ := Prod.mk.inj h
    obtain ⟨hpeer, hblock⟩ := hsaved name block hfile
    obtain ⟨found, key, hfound, hsame⟩ := findPeer_addBlock hpeer hblock hfind
    have hvalues' : peerValues found = some (pub, psk, ips) := by
      rw [← peerValues_rstripNl, hsame, peerValues_rstripNl, hvalues]
    refine ⟨_, _, enablePeer_listed he₂ hname ?_ hfound hvalues', hs.setPeer_setPeer⟩
    rw [← hs.conf, conf_setPeer, conf_write_server]
  · rw [hc] at h
    cases h

/-- Removing files that are not there. -/
theorem withoutFiles_of_absent (h : ∀ x, s.readClientFile name x = none) : s.withoutFiles name = s := by
  have herase : ∀ x : Ext, s.clients.erase (name ++ x.text) = s.clients := by
    intro x
    refine AList.ext (List.kerase_of_notMem_keys ?_)
    exact List.dlookup_eq_none.mp (h x)
  rw [Server.withoutFiles, Server.removeClientFile, Server.removeClientFile]
  simp only [herase]

theorem removePeer_absent (hname : validateIdentifier "peer_id".toList name = .ok name) (hconf : s.conf = some conf)
    (hfind : findPeer conf name = none) (hfiles : ∀ x, s.readClientFile name x = none) :
    removePeer cfg e name s = (.ok ⟨name, false⟩, s) := by
  have hkey : savedKey s name = none := by rw [savedKey, hfiles]
  rw [removePeer, hname, Cmd.ofExcept_ok_bind, Cmd.get_bind, readConf_ok hconf, Cmd.ofExcept_ok_bind, hfind]
  simp only [hkey, finishRemove_ok (.inr rfl), hfiles, Server.dropKey, withoutFiles_of_absent hfiles]
  rfl

theorem readClientFile_withoutFiles (s : Server) (n m : Text) (x : Ext) :
    (s.withoutFiles n).readClientFile m x = if m = n then none else s.readClientFile m x := by
  rw [Server.withoutFiles, readClientFile_remove, readClientFile_remove]
  cases x <;> by_cases hn : m = n <;> simp [hn]

theorem removePeer_again {r : FoundResult} (he₁ : e₁.AllOk) (h : removePeer cfg e₁ name s = (.ok r, s₁))
    (hs : s₁.Alike s₂) : ∃ r', removePeer cfg e₂ name s₂ = (.ok r', s₂) := by
  have hname : validateIdentifier "peer_id".toList name = .ok name := by
    rw [removePeer] at h
    obtain ⟨name', hname, -⟩ := Cmd.of_ofExcept_bind_ok h
    rwa [validateIdentifier_eq_ok hname] at hname ⊢
  rcases removePeer_cases cfg he₁.files name s with ⟨err, hc⟩ | ⟨conf, hconf, ⟨-, hc⟩ | ⟨⟨hawg, -⟩, -⟩⟩
  · rw [hc] at h
    cases h
  · rw [hc] at h
    obtain ⟨-, rfl⟩ := Prod.mk.inj h
    have hfiles : ∀ x, s₂.readClientFile name x = none := by
      intro x
      rw [hs.readClientFile, readClientFile_withoutFiles, if_pos rfl]
    have hlisted : ∃ conf', s₂.conf = some conf' ∧ findPeer conf' name = none := by
      rw [← hs.conf, Server.withoutFiles, conf_removeClientFile, conf_removeClientFile, conf_dropKey]
      cases hfind : findPeer conf name with
      | none => exact ⟨conf, hconf, hfind⟩
      | some found => exact ⟨_, rfl, findPeer_withoutPeer conf name⟩
    obtain ⟨conf', hconf', hfind⟩ := hlisted
    exact ⟨_, removePeer_absent hname hconf' hfind hfiles⟩
  · exact absurd (he₁.awg _) hawg

theorem snd_getConfig (name : Text) (s : Server) : (getConfig name s).2 = s := by
  rw [getConfig]
  cases validateIdentifier "peer_id".toList name with
  | error err => rfl
  | ok name' =>
    rw [Cmd.ofExcept_ok_bind, Cmd.get_bind]
    cases s.readClientFile name' .conf <;> rfl

theorem getConfig_ok {r : PeerResult} (h : getConfig name s = (.ok r, t)) :
    t = s ∧ validateIdentifier "peer_id".toList name = .ok name ∧ s.readClientFile name .conf = some r.config := by
  rw [getConfig] at h
  obtain ⟨name', hname, hbody⟩ := Cmd.of_ofExcept_bind_ok h
  obtain rfl := validateIdentifier_eq_ok hname
  rw [Cmd.get_bind] at hbody
  cases hfile : s.readClientFile name' .conf with
  | none =>
    rw [hfile] at hbody
    cases hbody
  | some text =>
    simp only [hfile, Cmd.pure_apply] at hbody
    obtain ⟨hr, rfl⟩ := Prod.mk.inj hbody
    exact ⟨rfl, hname, by rw [← Except.ok.inj hr]; rfl⟩

theorem getConfig_again {r : PeerResult} (h : getConfig name s = (.ok r, s₁)) (hs : s₁.Alike s₂) :
    ∃ r', getConfig name s₂ = (.ok r', s₂) ∧ r'.config = r.config := by
  obtain ⟨rfl, hname, hfile⟩ := getConfig_ok h
  refine ⟨peerResult name r.config none none, ?_, rfl⟩
  rw [getConfig, hname, Cmd.ofExcept_ok_bind, Cmd.get_bind, hs.readClientFile, hfile]
  rfl

/-! ### Saved blocks -/

theorem Server.Saved.of_readClientFile (h : s.Saved)
    (hread : ∀ n text, t.readClientFile n .peer = some text →
      s.readClientFile n .peer = some text ∨ IsPeer text ∧ blockName text = some n) : t.Saved :=
  fun n text htext => (hread n text htext).elim (h n text) id

/-- The block a create makes of words. -/
theorem saved_create {id : Text} (hs : s.Saved) (he : e.AllOk) (hkeys : e.WordKeys) (hname : IsWord name) :
    (createPeer cfg e id name s).2.Saved := by
  rcases createPeer_cases cfg he.files id name s with ⟨r, h⟩ | ⟨p, -, hplan, h⟩
  · rwa [h]
  obtain ⟨-, -, -, -, -, ip, -, -, -, hpub, hpsk, hips, -⟩ := planCreate_eq_ok hplan
  let peer : Peer :=
    ⟨name, p.pub, p.psk, p.allowedIps, hname, hpub ▸ hkeys.pub, hpsk ▸ hkeys.psk, hips ▸ isWord_allowedIps ip⟩
  rw [h]
  apply hs.of_readClientFile
  intro n text htext
  simp only [Server.created, readClientFile_write, readClientFile_write_server, readClientFile_setPeer, reduceCtorEq,
    and_false, and_true, if_false] at htext
  split_ifs at htext with hn
  · obtain rfl := Option.some.inj htext
    rw [hn]
    exact .inr ⟨peer.isPeer_block, peer.blockName_block⟩
  · exact .inl htext

theorem saved_disable (hs : s.Saved) (he : e.AllOk) : (disablePeer cfg e name s).2.Saved := by
  rcases disablePeer_cases cfg he.files name s with
    ⟨err, h⟩ | ⟨conf, -, ⟨-, h⟩ | ⟨block, pub, hfind, ⟨-, h⟩ | ⟨⟨hawg, -⟩, -⟩⟩⟩
  · rwa [h]
  · rwa [h]
  · rw [h]
    apply hs.of_readClientFile
    intro n text htext
    rw [readClientFile_dropKey, readClientFile_write_server, readClientFile_saveBlock] at htext
    split_ifs at htext with hn
    · cases hfile : s.readClientFile name .peer with
      | some old =>
        rw [hfile, Option.getD_some] at htext
        exact .inl (by rw [hn.1, hfile, htext])
      | none =>
        obtain ⟨hpeer, hname⟩ := of_findPeer hfind
        rw [hfile, Option.getD_none] at htext
        obtain rfl := Option.some.inj htext
        exact .inr
          ⟨by rwa [isPeer_newline, isPeer_rstripNl], by rw [blockName_newline, blockName_rstripNl, hname, hn.1]⟩
    · exact .inl htext
  · exact absurd (he.awg _) hawg

theorem saved_enable (hs : s.Saved) (he : e.AllOk) : (enablePeer cfg e name s).2.Saved := by
  rcases enablePeer_cases cfg he.files name s with
    ⟨err, h⟩ |
    ⟨conf, -, ⟨block, key, pub, psk, ips, -, -, -, h⟩ | ⟨block, -, -, -, ⟨pub, psk, ips, -, -, h⟩ | ⟨-, err, h⟩⟩⟩
  all_goals
    rw [h]
    exact hs

theorem saved_remove (hs : s.Saved) (he : e.AllOk) : (removePeer cfg e name s).2.Saved := by
  rcases removePeer_cases cfg he.files name s with ⟨err, h⟩ | ⟨conf, -, ⟨-, h⟩ | ⟨⟨hawg, -⟩, -⟩⟩
  · rwa [h]
  · rw [h]
    apply hs.of_readClientFile
    intro n text htext
    rw [readClientFile_withoutFiles, readClientFile_dropKey] at htext
    split_ifs at htext
    refine .inl ?_
    cases hfind : findPeer conf name <;> simpa [hfind] using htext
  · exact absurd (he.awg _) hawg

end AmneziaVpnBot.Vpnctl
