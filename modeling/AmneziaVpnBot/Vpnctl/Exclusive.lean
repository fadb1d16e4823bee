import AmneziaVpnBot.Vpnctl.Assign

/-! No two clients share an address. The config's blocks list distinct addresses after every step
of a run that mixes the commands with clients added by the shell script, which does not see the
saved blocks; a disabled client whose address is gone is refused. -/

namespace AmneziaVpnBot.Vpnctl

open Text

variable {cfg : Settings} {e : Env} {s t u : Server} {conf name : Text} {n : ℕ}

/-! ### Saved blocks -/

theorem mem_savedTexts_iff {text : Text} :
    text ∈ s.savedTexts ↔ ∃ file, Ext.peer.text <:+ file ∧ s.clients.lookup file = some text := by
  rw [Server.savedTexts, List.mem_map]
  constructor
  · rintro ⟨⟨file, text⟩, hmem, rfl⟩
    obtain ⟨hentry, hsuffix⟩ := List.mem_filter.mp hmem
    exact ⟨file, List.isSuffixOf_iff_suffix.mp hsuffix, AList.mem_lookup_iff.mpr hentry⟩
  · rintro ⟨file, hsuffix, hlookup⟩
    refine ⟨⟨file, text⟩, List.mem_filter.mpr ⟨AList.mem_lookup_iff.mp hlookup, ?_⟩, rfl⟩
    exact List.isSuffixOf_iff_suffix.mpr hsuffix

theorem savedTexts_write {text new : Text} {x : Ext} (h : text ∈ (s.write new (.client name x)).savedTexts) :
    text ∈ s.savedTexts ∨ x = .peer ∧ text = new := by
  obtain ⟨file, hsuffix, hlookup⟩ := mem_savedTexts_iff.mp h
  by_cases hfile : file = name ++ x.text
  · subst hfile
    rw [Server.write, AList.lookup_insert] at hlookup
    cases x with
    | peer => exact .inr ⟨rfl, (Option.some.inj hlookup).symm⟩
    | conf =>
      -- the two endings have the same length
      have hend : Ext.peer.text <:+ Ext.conf.text :=
        List.suffix_of_suffix_length_le hsuffix (List.suffix_append _ _) (by rw [Ext.length_text, Ext.length_text])
      have hnot : ¬ Ext.peer.text <:+ Ext.conf.text := by decide
      exact absurd hend hnot
  · rw [Server.write, AList.lookup_insert_ne hfile] at hlookup
    exact .inl (mem_savedTexts_iff.mpr ⟨file, hsuffix, hlookup⟩)

theorem savedTexts_remove {text : Text} {x : Ext} (h : text ∈ (s.removeClientFile name x).savedTexts) :
    text ∈ s.savedTexts := by
  obtain ⟨file, hsuffix, hlookup⟩ := mem_savedTexts_iff.mp h
  refine mem_savedTexts_iff.mpr ⟨file, hsuffix, ?_⟩
  by_cases hfile : file = name ++ x.text
  · rw [hfile, Server.removeClientFile, AList.lookup_erase] at hlookup
    cases hlookup
  · rwa [Server.removeClientFile, AList.lookup_erase_ne hfile] at hlookup

theorem savedTexts_of_clients (h : t.clients = s.clients) : t.savedTexts = s.savedTexts := by
  rw [Server.savedTexts, h, Server.savedTexts]

/-- What `find_peer` finds is a section of the config. -/
theorem section_of_findPeer {block : Text} {pub : Option Text} (h : findPeer conf name = some (block, pub)) :
    ∃ sec ∈ splitSections conf, sec.header = some peerHeader ∧ sec.text = block := by
  obtain ⟨sec, hfind, heq⟩ := Option.map_eq_some_iff.mp h
  have hpeer := List.find?_some hfind
  rw [Section.isPeer, Bool.and_eq_true, beq_iff_eq] at hpeer
  exact ⟨sec, List.mem_of_find?_eq_some hfind, hpeer.1, (Prod.mk.inj heq).1⟩

/-! ### What a step preserves -/

/-- Every block lists one address, and no two in the config the same. -/
structure Server.Exclusive (cfg : Settings) (s : Server) : Prop where
  addressed : s.Addressed cfg
  distinct : s.blockAddresses.Nodup

namespace Server.Exclusive

theorem same (hs : s.Exclusive cfg) (hconf : t.conf = s.conf) (hsaved : ∀ x ∈ t.savedTexts, SavedOk x) :
    t.Exclusive cfg where
  addressed := ⟨by rw [hconf]; exact hs.addressed.conf, hsaved⟩
  distinct := by
    rw [blockAddresses, Server.blocks, hconf]
    exact hs.distinct

/-- A block is added whose address no other block has. -/
theorem append {before block : Text} (hs : s.Exclusive cfg) (hconf : s.conf = some conf) (h : Appends conf before block)
    (hn : blockAddress block = some n) (hfree : n ∉ s.blockAddresses) (ht : t.conf = some (before ++ block))
    (hsaved : ∀ x ∈ t.savedTexts, SavedOk x) : t.Exclusive cfg where
  addressed := by
    obtain ⟨conf', settings, hconf', hok, hset⟩ := hs.addressed.conf
    obtain rfl : conf = conf' := Option.some.inj (hconf.symm.trans hconf')
    obtain ⟨settings', hset'⟩ := exists_settings_of_bodies h.bodies ⟨settings, hset⟩
    exact ⟨⟨_, settings', ht, h.confOk hok, hset'⟩, hsaved⟩
  distinct := by
    rw [blockAddresses_append hconf h ht hn]
    exact hs.distinct.append (List.nodup_singleton n) (by simpa using hfree)

/-- A client's blocks are taken out. -/
theorem withoutPeer (hs : s.Exclusive cfg) (name : Text) (hconf : s.conf = some conf)
    (ht : t.conf = some (withoutPeer conf name))
    (hsaved : ∀ x ∈ t.savedTexts, SavedOk x) : t.Exclusive cfg where
  addressed := by
    obtain ⟨conf', settings, hconf', hok, hset⟩ := hs.addressed.conf
    obtain rfl : conf = conf' := Option.some.inj (hconf.symm.trans hconf')
    obtain ⟨settings', hset'⟩ :=
      exists_settings_of_bodies (bodies_withoutPeer_of_ne (by decide) conf name) ⟨settings, hset⟩
    exact ⟨⟨_, settings', ht, hok.withoutPeer name, hset'⟩, hsaved⟩
  distinct := by
    have hsub : t.blockAddresses.Sublist s.blockAddresses := by
      rw [blockAddresses, blockAddresses, Server.blocks, Server.blocks, ht, hconf]
      change ((Vpnctl.blocks (Vpnctl.withoutPeer conf name)).filterMap blockAddress).Sublist
        ((Vpnctl.blocks conf).filterMap blockAddress)
      rw [blocks_withoutPeer]
      exact List.filter_sublist.filterMap _
    exact hs.distinct.sublist hsub

end Server.Exclusive

/-! ### The commands -/

/-- The block that is put back, with one newline at its end. -/
theorem SavedOk.restored {block : Text} (h : SavedOk block) : SavedOk (rstripNl block ++ ['\n']) where
  peer := by
    rw [isPeer_newline, isPeer_rstripNl]
    exact h.peer
  tidy := by
    rw [tidy_newline, tidy_rstripNl]
    exact h.tidy
  listed := by
    rw [blockAddress_newline, blockAddress_rstripNl]
    exact h.listed

/-- An address is given back exactly if no block in the config has it. -/
theorem checkAddress_ok_iff {block : Text} (name : Text) (hconf : s.conf = some conf) (hok : ConfOk conf)
    (hsaved : SavedOk block)
    (hn : blockAddress block = some n) : checkAddress s conf name block = .ok () ↔ n ∉ s.blockAddresses := by
  obtain ⟨value, hvalues, hv⟩ := blockAddress_eq_some hn
  obtain ⟨hcomma, hparse⟩ := v4Of_eq_some hv
  have hvalue : getValue (savedLines block) allowedIpsKey = some value := by
    rw [getValue_savedLines hsaved.tidy.plain (by decide), blockValue, getValue, ← List.head?_filterMap]
    change (blockValues block).head? = some value
    rw [hvalues]
    rfl
  rw [← mem_usedAddresses hconf hok, checkAddress, hvalue]
  simp only [List.splitOn_eq_singleton hcomma, List.headD_cons, hparse]
  split_ifs with hused
  · exact iff_of_false (by simp) (not_not.mpr hused)
  · exact iff_of_true rfl hused

theorem exclusive_create (hs : s.Exclusive cfg) (he : e.Works) (id label : Text) :
    (createPeer cfg e id label s).2.Exclusive cfg := by
  rcases createPeer_cases cfg he.ok.files id label s with ⟨r, h⟩ | ⟨p, -, hplan, h⟩
  · rwa [h]
  have hlabel : validateIdentifier "label".toList label = .ok label := by
    have hdone : createPeer cfg e id label s = (.ok _, s.created label p) := h
    exact (createPeer_done hdone).1
  obtain ⟨conf, i, n, hconf, -, hleast, hpconf, -, hblock, hn⟩ := planCreate_assigns hs.addressed he.keys hlabel hplan
  rw [h]
  refine hs.append hconf (hblock.appends conf) hn hleast.1.listed (by rw [← hpconf]; rfl) fun x hx => ?_
  obtain hx | ⟨hconf, -⟩ := savedTexts_write hx
  · obtain hx | ⟨-, rfl⟩ := savedTexts_write (s := s.setPeer p.pub p.psk p.allowedIps) hx
    · exact hs.addressed.saved x hx
    · exact hblock
  · cases hconf

theorem exclusive_disable (hs : s.Exclusive cfg) (he : e.Works) (name : Text) :
    (disablePeer cfg e name s).2.Exclusive cfg := by
  rcases disablePeer_cases cfg he.ok.files name s with ⟨err, h⟩ | ⟨conf, hconf, ⟨-, h⟩ | ⟨block, pub, hfind, h⟩⟩
  · rwa [h]
  · rwa [h]
  obtain ⟨conf', -, hconf', hok, -⟩ := hs.addressed.conf
  obtain rfl : conf = conf' := Option.some.inj (hconf.symm.trans hconf')
  have hsaved : ∀ x ∈ (s.saveBlock name block).savedTexts, SavedOk x := by
    intro x hx
    obtain ⟨sec, hsec, hheader, rfl⟩ := section_of_findPeer hfind
    rw [Server.saveBlock] at hx
    split_ifs at hx
    · obtain hx | ⟨-, rfl⟩ := savedTexts_write hx
      · exact hs.addressed.saved x hx
      · exact hok.savedOk hsec hheader
    · exact hs.addressed.saved x hx
  rcases h with ⟨-, h⟩ | ⟨-, err, h⟩
  · rw [h]
    refine hs.withoutPeer name hconf (by rw [conf_dropKey]; rfl) fun x hx => hsaved x ?_
    rwa [savedTexts_of_clients (clients_dropKey _ _)] at hx
  · rw [h]
    exact hs.withoutPeer name hconf rfl hsaved

theorem exclusive_enable (hs : s.Exclusive cfg) (he : e.Works) (name : Text) :
    (enablePeer cfg e name s).2.Exclusive cfg := by
  rcases enablePeer_cases cfg he.ok.files name s with
    ⟨err, h⟩ | ⟨conf, hconf, ⟨block, key, pub, psk, ips, -, -, -, h⟩ | ⟨block, -, hsaved, hcheck, h⟩⟩
  · rwa [h]
  · rw [h]
    exact hs.same rfl hs.addressed.saved
  obtain ⟨conf', -, hconf', hok, -⟩ := hs.addressed.conf
  obtain rfl : conf = conf' := Option.some.inj (hconf.symm.trans hconf')
  have hblock := hs.addressed.saved block (mem_savedTexts hsaved)
  obtain ⟨n, hn⟩ := Option.isSome_iff_exists.mp hblock.listed
  have hfree := (checkAddress_ok_iff name hconf hok hblock hn).mp hcheck
  have hback := hblock.restored
  have hbackAddress : blockAddress (rstripNl block ++ ['\n']) = some n := by
    rw [blockAddress_newline, blockAddress_rstripNl, hn]
  rcases h with ⟨pub, psk, ips, -, -, h⟩ | ⟨-, err, h⟩
  · rw [h]
    exact hs.append hconf (hback.appends conf) hbackAddress hfree rfl hs.addressed.saved
  · rw [h]
    exact hs.append hconf (hback.appends conf) hbackAddress hfree rfl hs.addressed.saved

theorem exclusive_remove (hs : s.Exclusive cfg) (he : e.Works) (name : Text) :
    (removePeer cfg e name s).2.Exclusive cfg := by
  rcases removePeer_cases cfg he.ok.files name s with ⟨err, h⟩ | ⟨conf, hconf, h⟩
  · rwa [h]
  have hunlisted : (s.unlisted conf name).1.Exclusive cfg := by
    rw [Server.unlisted]
    split
    · exact hs.withoutPeer name hconf rfl hs.addressed.saved
    · exact hs
  rcases hu : s.unlisted conf name with ⟨v, pub⟩
  rw [hu] at h hunlisted
  rcases h with ⟨-, h⟩ | ⟨-, err, h⟩
  · rw [h]
    refine hunlisted.same ?_ fun x hx => hunlisted.addressed.saved x ?_
    · rw [Server.withoutFiles, conf_removeClientFile, conf_removeClientFile, conf_dropKey]
    · have hx := savedTexts_remove (savedTexts_remove hx)
      rwa [savedTexts_of_clients (clients_dropKey _ _)] at hx
  · rwa [h]

/-- A disabled client is refused, and nothing changes, exactly if a block has its address. -/
theorem enablePeer_refused_iff (hs : s.Exclusive cfg) (he : e.Works)
    (hvalid : validateIdentifier "peer_id".toList name = .ok name)
    (hconf : s.conf = some conf) (hoff : findPeer conf name = none) {saved : Text}
    (hsaved : s.readClientFile name .peer = some saved) (hn : blockAddress saved = some n) :
    ((∃ err, enablePeer cfg e name s = (.error err, s)) ↔ n ∈ s.blockAddresses) ∧
      (peerValues saved ≠ none → ((∃ r, (enablePeer cfg e name s).1 = .ok r) ↔ n ∉ s.blockAddresses)) := by
  obtain ⟨conf', -, hconf', hok, -⟩ := hs.addressed.conf
  obtain rfl : conf = conf' := Option.some.inj (hconf.symm.trans hconf')
  have hblock := hs.addressed.saved saved (mem_savedTexts hsaved)
  have hcheck := checkAddress_ok_iff name hconf hok hblock hn
  have henable : enablePeer cfg e name s = (do
      Cmd.ofExcept (checkAddress s conf name saved)
      writePrivate cfg e .server (addBlock conf (rstripNl saved ++ ['\n']))
      setPeerOf cfg e saved
      return (⟨name, true⟩ : FoundResult) : Cmd FoundResult) s := by
    rw [enablePeer, hvalid, Cmd.ofExcept_ok_bind, Cmd.get_bind, readConf_ok hconf, Cmd.ofExcept_ok_bind, hoff]
    simp only [hsaved]
  rw [henable]
  by_cases hused : n ∈ s.blockAddresses
  · cases hresult : checkAddress s conf name saved with
    | ok => exact absurd hused (hcheck.mp hresult)
    | error err =>
      rw [Cmd.ofExcept_error_bind]
      exact ⟨iff_of_true ⟨err, rfl⟩ hused, fun _ => iff_of_false (by simp) (not_not.mpr hused)⟩
  · rw [hcheck.mpr hused, Cmd.ofExcept_ok_bind, Cmd.bind_of_ok (writePrivate_ok (he.ok.files _) _ _)]
    rcases setPeerOf_cases cfg (e := e) saved (s.write (addBlock conf (rstripNl saved ++ ['\n'])) .server) with
      ⟨pub, psk, ips, -, -, h⟩ | ⟨hfail, err, h⟩
    · rw [Cmd.bind_of_ok h]
      exact ⟨iff_of_false (by simp) hused, fun _ => iff_of_true ⟨_, rfl⟩ hused⟩
    · -- the block is in the config all the same
      have hadded : (s.write (addBlock conf (rstripNl saved ++ ['\n'])) .server).blockAddresses =
        s.blockAddresses ++ [n] :=
        blockAddresses_append hconf (hblock.restored.appends conf) rfl
          (by rw [blockAddress_newline, blockAddress_rstripNl, hn])
      rw [Cmd.bind_of_error h]
      refine ⟨iff_of_false ?_ hused, fun hvalues => ?_⟩
      · rintro ⟨err', heq⟩
        rw [(Prod.mk.inj heq).2] at hadded
        simp at hadded
      · exact absurd hfail (not_or.mpr ⟨not_not.mpr (he.ok.awg _), hvalues⟩)

/-! ### Runs -/

/-- A step in the server's life: a command, or a client added by the shell script, which puts a
block after the config, a client config into its folder and a peer on the live interface. -/
inductive Change
  | command (c : Command) (e : Env)
  | script (name before block config pub psk allowedIps : Text)

def Change.apply (cfg : Settings) (s : Server) : Change → Server
  | .command c e => (c.exec cfg e s).2
  | .script name before block config pub psk allowedIps =>
    ((s.write (before ++ block) .server).write config (.client name .conf)).setPeer pub psk allowedIps

def change (cfg : Settings) (s : Server) (c : Change) : Option Server := some (c.apply cfg s)

/-- No call of the command fails; the script's block comes after the config and lists one IPv4
address, which is in no other block. -/
def Change.Fair (s : Server) : Change → Prop
  | .command _ e => e.Works
  | .script _ before block .. =>
    ∃ conf n, s.conf = some conf ∧ Appends conf before block ∧ blockAddress block = some n ∧ n ∉ s.blockAddresses

theorem exclusive_change {c : Change} (hs : s.Exclusive cfg) (hc : c.Fair s) (h : change cfg s c = some t) :
    t.Exclusive cfg := by
  obtain rfl := Option.some.inj h
  cases c with
  | command c e =>
    cases c with
    | create id label =>
      simp only [Change.apply, Command.exec, Cmd.snd_return]
      exact exclusive_create hs hc id label
    | disable name =>
      simp only [Change.apply, Command.exec, Cmd.snd_return]
      exact exclusive_disable hs hc name
    | enable name =>
      simp only [Change.apply, Command.exec, Cmd.snd_return]
      exact exclusive_enable hs hc name
    | remove name =>
      simp only [Change.apply, Command.exec, Cmd.snd_return]
      exact exclusive_remove hs hc name
  | script name before block config pub psk allowedIps =>
    obtain ⟨conf, n, hconf, happends, hn, hfree⟩ := hc
    refine hs.append hconf happends hn hfree rfl fun x hx => ?_
    obtain hx | ⟨hext, -⟩ := savedTexts_write (s := s.write (before ++ block) .server) hx
    · exact hs.addressed.saved x hx
    · cases hext

/-- The server's clients have distinct addresses, a new one gets the least that is free, and a
disabled one comes back only to an address that is not taken. -/
structure SharesNoAddress (cfg : Settings) (s : Server) (conf : Text) (i : Interface) : Prop where
  distinct : s.blockAddresses.Nodup
  create : ∀ e id label, e.Works → (∃ host, endpointHost cfg e = .ok host) → validateUuid id = .ok () →
    validateIdentifier "label".toList label = .ok label → s.readClientFile label .conf = none →
      (∀ n, IsLeast {n | s.Free i n} n → ∃ r t, createPeer cfg e id label s = (.ok r, t) ∧
          r.address = some (v4Text n ++ "/32".toList) ∧ t.blockAddresses = s.blockAddresses ++ [n]) ∧
        (createPeer cfg e id label s = (.error (subnetFull i), s) ↔ ∀ n, ¬ s.Free i n)
  enable : ∀ e name saved n, e.Works → validateIdentifier "peer_id".toList name = .ok name →
    findPeer conf name = none → s.readClientFile name .peer = some saved → blockAddress saved = some n →
      ((∃ err, enablePeer cfg e name s = (.error err, s)) ↔ n ∈ s.blockAddresses) ∧
        (peerValues saved ≠ none → ((∃ r, (enablePeer cfg e name s).1 = .ok r) ↔ n ∉ s.blockAddresses))

/-- After every step of a run from a server whose blocks list distinct addresses. -/
theorem sharesNoAddress_run {cs : List Change} (hs : s.Addressed cfg) (hdistinct : s.blockAddresses.Nodup)
    (hfair : Machine.Along (change cfg) (fun s c => c.Fair s) s cs) (hrun : Machine.run (change cfg) s cs = some u) :
    ∃ conf i, u.conf = some conf ∧ serverInterface conf = some i ∧ SharesNoAddress cfg u conf i := by
  have hu : u.Exclusive cfg :=
    Machine.invariant_along (fun _ _ _ hs hc h => exclusive_change hs hc h) hfair hrun ⟨hs, hdistinct⟩
  obtain ⟨conf, -, hconf, hok, -⟩ := hu.addressed.conf
  obtain ⟨i, m, hi, -⟩ := hok.exists_interface
  refine ⟨conf, i, hconf, hi, hu.distinct, ?_, ?_⟩
  · intro e id label he hhost hid hlabel hnew
    exact createPeer_address hu.addressed he hhost hid hlabel hnew hconf hi
  · intro e name saved n he hvalid hoff hsaved hn
    exact enablePeer_refused_iff hu he hvalid hconf hoff hsaved hn

/-! ### A small run -/

/-- A server without clients lists no addresses. -/
theorem Server.New.blockAddresses (hs : s.New) : s.blockAddresses = [] := by
  obtain ⟨conf, hconf, hblocks⟩ := hs.conf
  rw [Server.blockAddresses, Server.blocks, hconf]
  change (Vpnctl.blocks conf).filterMap blockAddress = []
  rw [hblocks]
  rfl

theorem smallServer_addressed : smallServer.Addressed smallSettings where
  conf :=
    ⟨_, _, rfl,
      ⟨⟨by unfold Plain; decide +kernel, by decide +kernel, by decide +kernel⟩, by decide +kernel, by decide +kernel,
    by decide +kernel⟩, rfl⟩
  saved := by
    intro t ht
    cases ht

/-- What the shell script adds: a client with the address of one that is turned off. -/
def smallLaptop : Text := peerBlock "laptop".toList "bGFwdG9w".toList "cHNr".toList (v4Text 167772162 ++ "/32".toList)

/-- The small server with one client, which is turned off. -/
def smallOff : Server :=
  (Change.command (.disable "a".toList) (smallEnv "azE=".toList)).apply smallSettings
    ((Change.command (.create smallId "a".toList) (smallEnv "azE=".toList)).apply smallSettings smallServer)

/-- The script gives a disabled client's address away; the next client gets another, and the
disabled one is not turned on again. -/
def smallChanges : List Change :=
  [.command (.create smallId "a".toList) (smallEnv "azE=".toList),
    .command (.disable "a".toList) (smallEnv "azE=".toList), .script "laptop".toList
      (rstripNl (smallOff.conf.getD []) ++ "\n\n".toList) smallLaptop [] "bGFwdG9w".toList "cHNr".toList
      "10.0.0.2/32".toList,
    .command (.create smallId "b".toList) (smallEnv "azI=".toList), .command (.enable "a".toList)
      (smallEnv "azE=".toList)]

theorem smallChanges_fair : Machine.Along (change smallSettings) (fun s c => c.Fair s) smallServer smallChanges := by
  have hworks : ∀ key, (smallEnv key).WordKeys → (smallEnv key).Works := fun key h => ⟨smallEnv_allOk key, h⟩
  have hlaptop : validateIdentifier "label".toList "laptop".toList = .ok "laptop".toList := by decide +kernel
  obtain ⟨hsaved, haddress⟩ : SavedOk smallLaptop ∧ blockAddress smallLaptop = some 167772162 :=
    savedOk_peerBlock hlaptop (by decide) (by decide) (by decide)
  have hconf : smallOff.conf = some (smallOff.conf.getD []) := rfl
  refine ⟨hworks _ (by decide +kernel), fun t ht => ?_⟩
  obtain rfl := Option.some.inj ht
  refine ⟨hworks _ (by decide +kernel), fun t ht => ?_⟩
  obtain rfl := Option.some.inj ht
  refine ⟨⟨_, _, hconf, hsaved.appends _, haddress, by decide +kernel⟩, fun t ht => ?_⟩
  obtain rfl := Option.some.inj ht
  refine ⟨hworks _ (by decide +kernel), fun t ht => ?_⟩
  obtain rfl := Option.some.inj ht
  exact ⟨hworks _ (by decide +kernel), fun _ _ => trivial⟩

theorem sharesNoAddress_run_small :
    ∃ u conf i, Machine.run (change smallSettings) smallServer smallChanges = some u ∧ u.conf = some conf ∧
      serverInterface conf = some i ∧ SharesNoAddress smallSettings u conf i := by
  have hdistinct : smallServer.blockAddresses.Nodup := by rw [smallServer_new.blockAddresses]; exact List.nodup_nil
  obtain ⟨u, h⟩ : ∃ u, Machine.run (change smallSettings) smallServer smallChanges = some u := ⟨_, rfl⟩
  obtain ⟨conf, i, hu⟩ := sharesNoAddress_run smallServer_addressed hdistinct smallChanges_fair h
  exact ⟨u, conf, i, h, hu⟩

end AmneziaVpnBot.Vpnctl
