import AmneziaVpnBot.Vpnctl.Named

/-! A client that was turned off or removed is off: its name has no block in the config, and no key
that it has held is live. A call of `awg` that fails leaves a command half done, and the same command
run again takes another way. Removing falls back to the saved block then; turning off does not. -/

namespace AmneziaVpnBot.Vpnctl

open Text

variable {cfg : Settings} {e : Env} {s t : Server} {conf name : Text}

/-! ### The keys of a client -/

/-- One block of that client, with a public key. -/
structure ClientBlock (name text : Text) : Prop where
  peer : IsPeer text
  named : blockName text = some name
  plain : Plain text
  keyed : ∃ key, blockValue publicKey text = some key

/-- A block of that name in the config has the key. -/
def Server.Lists (s : Server) (name key : Text) : Prop :=
  ∃ b ∈ s.blocks, blockName b = some name ∧ blockValue publicKey b = some key

/-- A block of that name in the config or the saved block of the client has the key. -/
def Server.Holds (s : Server) (name key : Text) : Prop := s.Lists name key ∨ savedKey s name = some key

/-- Every client has one key, the same in its block and its saved block, and a config of its own. -/
structure Server.Sound (s : Server) : Prop where
  listed : ∀ b ∈ s.blocks, ∀ name, blockName b = some name → ClientBlock name b
  saved : ∀ name text, s.readClientFile name .peer = some text → ClientBlock name text
  one : ∀ name k l, s.Holds name k → s.Holds name l → k = l
  delivered : ∀ name k, s.Holds name k → (s.readClientFile name .conf).isSome = true

theorem clientBlock_newline (text : Text) : ClientBlock name (text ++ ['\n']) ↔ ClientBlock name text := by
  have hvalue : blockValue publicKey (text ++ ['\n']) = blockValue publicKey text := blockValue_newline (by decide) text
  constructor
  · rintro ⟨hpeer, hnamed, hplain, hkeyed⟩
    exact ⟨(isPeer_newline text).mp hpeer, by rwa [blockName_newline] at hnamed, (plain_newline text).mp hplain,
      hvalue ▸ hkeyed⟩
  · rintro ⟨hpeer, hnamed, hplain, hkeyed⟩
    exact ⟨(isPeer_newline text).mpr hpeer, by rwa [blockName_newline], (plain_newline text).mpr hplain,
      hvalue.symm ▸ hkeyed⟩

theorem clientBlock_rstripNl (text : Text) : ClientBlock name (rstripNl text) ↔ ClientBlock name text :=
  iff_of_eq (eq_rstripNl (ClientBlock name) (fun t => propext (clientBlock_newline t)) text)

/-- The key in a saved block, as it is read without line ends. -/
theorem ClientBlock.savedKey {text : Text} (h : ClientBlock name text)
    (hfile : s.readClientFile name .peer = some text) :
    savedKey s name = blockValue publicKey text := by
  have hne : text ≠ [] := by
    rintro rfl
    obtain ⟨line, hline, -⟩ := h.peer.1
    cases hline
  rw [Vpnctl.savedKey, hfile]
  simp only [if_neg hne]
  exact getValue_savedLines h.plain (by decide)

theorem savedKey_congr (h : t.readClientFile name .peer = s.readClientFile name .peer) :
    savedKey t name = savedKey s name := by
  rw [savedKey, h, savedKey]

theorem savedKey_of_none (h : s.readClientFile name .peer = none) : savedKey s name = none := by rw [savedKey, h]

theorem blocks_of_conf (hconf : s.conf = some conf) : s.blocks = blocks conf := by rw [Server.blocks, hconf]; rfl

theorem lists_withoutPeer (hconf : s.conf = some conf) (ht : t.conf = some (withoutPeer conf name)) (n k : Text) :
    t.Lists n k ↔ n ≠ name ∧ s.Lists n k := by
  simp only [Server.Lists, blocks_of_conf hconf, blocks_of_conf ht, blocks_withoutPeer, List.mem_filter,
    decide_eq_true_eq]
  constructor
  · rintro ⟨b, ⟨hb, hne⟩, hname, hkey⟩
    exact ⟨fun h => hne (h ▸ hname), b, hb, hname, hkey⟩
  · rintro ⟨hne, b, hb, hname, hkey⟩
    exact ⟨b, ⟨hb, fun h => hne (Option.some.inj (hname.symm.trans h))⟩, hname, hkey⟩

theorem lists_addBlock {block : Text} (hblock : ClientBlock name block) (hconf : s.conf = some conf)
    (ht : t.conf = some (addBlock conf block)) (n k : Text) :
    t.Lists n k ↔ s.Lists n k ∨ n = name ∧ blockValue publicKey block = some k := by
  simp only [Server.Lists, blocks_of_conf hconf, blocks_of_conf ht, blocks_addBlock hblock.peer, List.mem_append,
    List.mem_singleton]
  constructor
  · rintro ⟨b, hb | rfl, hname, hkey⟩
    · exact .inl ⟨b, hb, hname, hkey⟩
    · rw [blockName_rstripNl, hblock.named] at hname
      rw [blockValue_rstripNl (by decide)] at hkey
      exact .inr ⟨(Option.some.inj hname).symm, hkey⟩
  · rintro (⟨b, hb, hname, hkey⟩ | ⟨rfl, hkey⟩)
    · exact ⟨b, .inl hb, hname, hkey⟩
    · exact ⟨_, .inr rfl, by rw [blockName_rstripNl, hblock.named], by rw [blockValue_rstripNl (by decide), hkey]⟩

/-- What `find_peer` finds is a block of the config, and its key. -/
theorem mem_of_findPeer {block : Text} {pub : Option Text} (h : findPeer conf name = some (block, pub)) :
    rstripNl block ∈ blocks conf ∧ blockName block = some name ∧ pub = blockValue publicKey block := by
  have hmap := findPeer_map conf name
  rw [h, Option.map_some, eq_comm, Option.map_eq_some_iff] at hmap
  obtain ⟨b, hb, heq⟩ := hmap
  obtain ⟨hblock, hpub⟩ : b = rstripNl block ∧ blockValue publicKey b = pub := Prod.mk.inj heq
  have hname := List.find?_some hb
  rw [hblock, decide_eq_true_eq, blockName_rstripNl] at hname
  refine ⟨hblock ▸ List.mem_of_find?_eq_some hb, hname, ?_⟩
  rw [← hpub, hblock, blockValue_rstripNl (by decide)]

theorem Server.Sound.of_findPeer (hs : s.Sound) (hconf : s.conf = some conf) {block : Text} {pub : Option Text}
    (h : findPeer conf name = some (block, pub)) :
    ClientBlock name block ∧ ∃ key, pub = some key ∧ s.Lists name key := by
  obtain ⟨hmem, hname, rfl⟩ := mem_of_findPeer h
  rw [← blocks_of_conf hconf] at hmem
  have hblock := (clientBlock_rstripNl block).mp (hs.listed _ hmem name (by rw [blockName_rstripNl, hname]))
  obtain ⟨key, hkey⟩ := hblock.keyed
  exact ⟨hblock, key, hkey, _, hmem, by rw [blockName_rstripNl, hname], by rw [blockValue_rstripNl (by decide), hkey]⟩

theorem not_lists_of_findPeer (hconf : s.conf = some conf) (h : findPeer conf name = none) (k : Text) :
    ¬ s.Lists name k := by
  rintro ⟨b, hb, hname, -⟩
  rw [blocks_of_conf hconf] at hb
  exact findPeer_eq_none.mp h b hb hname

/-! ### What has been held -/

/-- A server, and the keys that the blocks and the saved block of each name have had. -/
structure Tracked where
  server : Server
  held : Text → Text → Prop

def Tracked.next (x : Tracked) (t : Server) : Tracked := ⟨t, fun name key => x.held name key ∨ t.Holds name key⟩

/-- A key that was held and is live is the key its client has now, and no two clients have held the same. -/
structure Tracked.Inv (x : Tracked) : Prop where
  sound : x.server.Sound
  holds : ∀ name key, x.server.Holds name key → x.held name key
  current : ∀ name key, x.held name key → x.server.live key ≠ none → x.server.Holds name key
  apart : ∀ n m key, x.held n key → x.held m key → n = m

/-- The name has no block in the config, and no key that it has held is live. -/
structure Tracked.Off (x : Tracked) (name : Text) : Prop where
  unlisted : ∀ b ∈ x.server.blocks, blockName b ≠ some name
  dead : ∀ key, x.held name key → x.server.live key = none

variable {x : Tracked}

variable (name) in
/-- What a step may do: only `name` gets a key, a new one; a live key stays with its client, and a
key that becomes live is some client's. -/
theorem Tracked.Inv.next (hx : x.Inv) (hsound : t.Sound)
    (hnew : ∀ n key, t.Holds n key → x.server.Holds n key ∨ n = name ∧ ∀ m, ¬ x.held m key)
    (hkept : ∀ n key, x.server.Holds n key → t.live key ≠ none → t.Holds n key)
    (hlive : ∀ key, t.live key ≠ none → x.server.live key ≠ none ∨ ∃ n, t.Holds n key) : (x.next t).Inv where
  sound := hsound
  holds n key h := .inr h
  current n key hheld hk := by
    rcases hheld with hheld | hheld
    · rcases hlive key hk with hold | ⟨m, hm⟩
      · exact hkept n key (hx.current n key hheld hold) hk
      · rcases hnew m key hm with hm' | ⟨-, hfresh⟩
        · rwa [hx.apart n m key hheld (hx.holds m key hm')]
        · exact absurd hheld (hfresh n)
    · exact hheld
  apart n m key hn hm := by
    have hfresh : ∀ n, t.Holds n key → x.held n key ∨ n = name ∧ ∀ m, ¬ x.held m key := fun n h =>
      (hnew n key h).imp_left (hx.holds n key)
    rcases hn.elim .inl (hfresh n) with hn | ⟨rfl, hn⟩
    · rcases hm.elim .inl (hfresh m) with hm | ⟨-, hm⟩
      · exact hx.apart n m key hn hm
      · exact absurd hn (hm n)
    · rcases hm.elim .inl (hfresh m) with hm | ⟨rfl, -⟩
      · exact absurd hm (hn m)
      · rfl

/-- A step that changes nothing. -/
theorem Tracked.Inv.same (hx : x.Inv) : (x.next x.server).Inv :=
  hx.next [] hx.sound (fun _ _ h => .inl h) (fun _ _ h _ => h) fun _ h => .inl h

variable (name) in
/-- A step that touches one client keeps the others as they are. -/
theorem Server.Sound.of_client (hs : s.Sound) (hlisted : ∀ b ∈ t.blocks, b ∈ s.blocks ∨ ClientBlock name b)
    (hsaved : ∀ n text, t.readClientFile n .peer = some text →
      s.readClientFile n .peer = some text ∨ n = name ∧ ClientBlock name text)
    (hothers : ∀ n ≠ name, ∀ key, t.Holds n key → s.Holds n key)
    (hfiles : ∀ n ≠ name, t.readClientFile n .conf = s.readClientFile n .conf)
    (hone : ∀ k l, t.Holds name k → t.Holds name l → k = l)
    (hdelivered : ∀ key, t.Holds name key → (t.readClientFile name .conf).isSome = true) : t.Sound where
  listed b hb n hn := by
    rcases hlisted b hb with hb | hb
    · exact hs.listed b hb n hn
    · obtain rfl : name = n := Option.some.inj (hb.named.symm.trans hn)
      exact hb
  saved n text htext := by
    rcases hsaved n text htext with h | ⟨rfl, h⟩
    · exact hs.saved n text h
    · exact h
  one n k l hk hl := by
    by_cases hn : n = name
    · subst hn
      exact hone k l hk hl
    · exact hs.one n k l (hothers n hn k hk) (hothers n hn l hl)
  delivered n key hkey := by
    by_cases hn : n = name
    · subst hn
      exact hdelivered key hkey
    · rw [hfiles n hn]
      exact hs.delivered n key (hothers n hn key hkey)

variable (name) in
/-- A step in which every client keeps its keys. -/
theorem Tracked.Inv.keep (hx : x.Inv) (hlisted : ∀ b ∈ t.blocks, b ∈ x.server.blocks ∨ ClientBlock name b)
    (hsaved : ∀ n text, t.readClientFile n .peer = some text →
      x.server.readClientFile n .peer = some text ∨ n = name ∧ ClientBlock name text)
    (hconf : ∀ n, t.readClientFile n .conf = x.server.readClientFile n .conf)
    (hholds : ∀ n key, t.Holds n key ↔ x.server.Holds n key)
    (hlive : ∀ key, t.live key ≠ none → x.server.live key ≠ none ∨ ∃ n, t.Holds n key) : (x.next t).Inv := by
  refine hx.next name ?_ (fun n key h => .inl ((hholds n key).mp h)) (fun n key h _ => (hholds n key).mpr h) hlive
  refine hx.sound.of_client name hlisted hsaved (fun n _ key h => (hholds n key).mp h) (fun n _ => hconf n) ?_ ?_
  · exact fun k l hk hl => hx.sound.one name k l ((hholds name k).mp hk) ((hholds name l).mp hl)
  · intro key hkey
    rw [hconf]
    exact hx.sound.delivered name key ((hholds name key).mp hkey)

/-- A name is off once the keys it has now are not live. -/
theorem Tracked.Inv.dead (hx : x.Inv) (hholds : ∀ key, t.Holds name key → x.server.Holds name key)
    (hlive : ∀ key, t.live key ≠ none → x.server.live key ≠ none)
    (hdead : ∀ key, x.server.Holds name key → t.live key = none) :
    ∀ key, (x.next t).held name key → t.live key = none := by
  intro key hkey
  by_contra hk
  have hheld : x.held name key := hkey.elim id fun h => hx.holds name key (hholds key h)
  exact hk (hdead key (hx.current name key hheld (hlive key hk)))

/-! ### Creating -/

theorem live_of_setPeer {pub psk ips k : Text} (h : (s.setPeer pub psk ips).live k ≠ none) :
    s.live k ≠ none ∨ k = pub := by
  rw [live_setPeer] at h
  split_ifs at h with hk
  · exact .inr hk
  · exact .inl h

/-- A client comes in under a name without a key, with a key that nobody has had. -/
theorem Tracked.Inv.add (hx : x.Inv) (hconf : x.server.conf = some conf) {block key : Text} (config : Text)
    (hblock : ClientBlock name block)
    (hkey : blockValue publicKey block = some key) (hnone : ∀ k, ¬ x.server.Holds name k) (hfresh : ∀ n, ¬ x.held n key)
    (ht : t.conf = some (addBlock conf block))
    (hpeer : ∀ n, t.readClientFile n .peer = if n = name then some block else x.server.readClientFile n .peer)
    (hfile : ∀ n, t.readClientFile n .conf = if n = name then some config else x.server.readClientFile n .conf)
    (hlive : ∀ k, t.live k ≠ none → x.server.live k ≠ none ∨ k = key) : (x.next t).Inv := by
  have hsaved : savedKey t name = some key := by rw [hblock.savedKey (by rw [hpeer, if_pos rfl]), hkey]
  have hname : ∀ k, t.Holds name k ↔ k = key := by
    intro k
    rw [Server.Holds, hsaved, lists_addBlock hblock hconf ht, hkey, Option.some.injEq]
    constructor
    · rintro ((h | ⟨-, h⟩) | h)
      · exact absurd (.inl h) (hnone k)
      · exact h.symm
      · exact h.symm
    · exact fun h => .inr h.symm
  have hother : ∀ n ≠ name, ∀ k, t.Holds n k ↔ x.server.Holds n k := by
    intro n hn k
    have hsame : savedKey t n = savedKey x.server n := savedKey_congr (by rw [hpeer, if_neg hn])
    rw [Server.Holds, lists_addBlock hblock hconf ht, hsame, Server.Holds]
    simp [hn]
  refine hx.next name ?_ (fun n k hk => ?_) (fun n k hk _ => ?_) fun k hk => ?_
  · refine hx.sound.of_client name (fun b hb => ?_) (fun n text htext => ?_) (fun n hn k hk => (hother n hn k).mp hk)
      (fun n hn => by rw [hfile, if_neg hn]) (fun k l hk hl => by rw [(hname k).mp hk, (hname l).mp hl])
      fun k _ => by rw [hfile, if_pos rfl]; rfl
    · rw [blocks_of_conf ht, blocks_addBlock hblock.peer, List.mem_append, List.mem_singleton] at hb
      rcases hb with hb | rfl
      · exact .inl (blocks_of_conf hconf ▸ hb)
      · exact .inr ((clientBlock_rstripNl _).mpr hblock)
    · rw [hpeer] at htext
      split_ifs at htext with hn
      · exact .inr ⟨hn, Option.some.inj htext ▸ hblock⟩
      · exact .inl htext
  · by_cases hn : n = name
    · subst hn
      exact .inr ⟨rfl, (hname k).mp hk ▸ hfresh⟩
    · exact .inl ((hother n hn k).mp hk)
  · by_cases hn : n = name
    · subst hn
      exact absurd hk (hnone k)
    · exact (hother n hn k).mpr hk
  · rcases hlive k hk with h | rfl
    · exact .inl h
    · exact .inr ⟨name, (hname k).mpr rfl⟩

variable (cfg) in
/-- A name that has a key has a config too, which is then handed out again. -/
theorem create_next {id label : Text} (hx : x.Inv) (hf : e.FilesOk) (hkeys : e.WordKeys)
    (hfresh : ∀ n, ¬ x.held n e.newPub)
    (hend : label.getLast? ≠ some '\n') : (x.next (createPeer cfg e id label x.server).2).Inv := by
  rcases createPeer_cases cfg hf id label x.server with ⟨r, h⟩ | ⟨p, hfile, hplan, h⟩
  · rw [h]
    exact hx.same
  have hidentifier := isIdentifier_of_valid (createPeer_done h).1 hend
  obtain ⟨conf, -, -, -, -, ip, hconf, -, -, hpub, hpsk, hips, hpconf⟩ := planCreate_eq_ok hplan
  let peer : Peer := ⟨label, p.pub, p.psk, p.allowedIps, isWord_of_isIdentifier hidentifier, hpub ▸ hkeys.pub,
    hpsk ▸ hkeys.psk, hips ▸ isWord_allowedIps ip⟩
  have hblock : ClientBlock label peer.block :=
    ⟨peer.isPeer_block, peer.blockName_block, peer.plain_block, _, peer.publicKey_block⟩
  have hkey : blockValue publicKey peer.block = some e.newPub := hpub ▸ peer.publicKey_block
  have hnone : ∀ k, ¬ x.server.Holds label k := fun k hk => by
    have hsome := hx.sound.delivered label k hk
    rw [hfile] at hsome
    cases hsome
  rw [h]
  refine hx.add hconf p.clientConf hblock hkey hnone hfresh (by rw [← hpconf]; rfl) (fun n => ?_) (fun n => ?_)
    fun k hk => ?_
  · simp only [Server.created, readClientFile_write, readClientFile_write_server, readClientFile_setPeer, reduceCtorEq,
      and_false, and_true, if_false]
    rfl
  · simp only [Server.created, readClientFile_write, readClientFile_write_server, readClientFile_setPeer, reduceCtorEq,
      and_false, and_true, if_false]
  · rw [Server.created, live_write, live_write, live_write] at hk
    exact hpub ▸ live_of_setPeer hk

/-! ### Turning off -/

/-- After a client's block is saved, its saved block has its key. -/
theorem Server.Sound.saveBlock (hs : s.Sound) (hconf : s.conf = some conf) {block key : Text}
    (hfind : findPeer conf name = some (block, some key)) :
    ∃ text, (s.saveBlock name block).readClientFile name .peer = some text ∧ ClientBlock name text ∧
      blockValue publicKey text = some key := by
  obtain ⟨hblock, key', hkey', hlists⟩ := hs.of_findPeer hconf hfind
  obtain rfl : key = key' := Option.some.inj hkey'
  have hkey : blockValue publicKey block = some key := (mem_of_findPeer hfind).2.2.symm
  rw [readClientFile_saveBlock, if_pos ⟨rfl, rfl⟩]
  cases hsaved : s.readClientFile name .peer with
  | some text =>
    have hclient := hs.saved name text hsaved
    obtain ⟨k, hk⟩ := hclient.keyed
    have hholds : s.Holds name k := .inr (by rw [hclient.savedKey hsaved, hk])
    exact ⟨text, rfl, hclient, by rw [hk, hs.one name k key hholds (.inl hlists)]⟩
  | none =>
    refine ⟨_, rfl, (clientBlock_newline _).mpr ((clientBlock_rstripNl block).mpr hblock), ?_⟩
    rw [Option.getD_none, blockValue_newline (by decide), blockValue_rstripNl (by decide), hkey]

/-- What is left of a client without its block is the key in its saved block. -/
theorem holds_unlisted (hs : s.Sound) (hconf : s.conf = some conf) {block key : Text}
    (hfind : findPeer conf name = some (block, some key)) (ht : t.conf = some (withoutPeer conf name))
    (hkey : savedKey t name = some key)
    (hpeer : ∀ n ≠ name, t.readClientFile n .peer = s.readClientFile n .peer) (n k : Text) :
    t.Holds n k ↔ s.Holds n k := by
  obtain ⟨-, key', hkey', hlists⟩ := hs.of_findPeer hconf hfind
  obtain rfl : key = key' := Option.some.inj hkey'
  by_cases hn : n = name
  · subst hn
    rw [Server.Holds, lists_withoutPeer hconf ht, hkey]
    constructor
    · rintro (h | h)
      · exact absurd rfl h.1
      · exact Option.some.inj h ▸ .inl hlists
    · exact fun h => .inr (congrArg some (hs.one n key k (.inl hlists) h))
  · rw [Server.Holds, lists_withoutPeer hconf ht, savedKey_congr (hpeer n hn), Server.Holds]
    simp [hn]

theorem blocks_withoutPeer_subset (hconf : s.conf = some conf) (ht : t.conf = some (withoutPeer conf name)) :
    ∀ b ∈ t.blocks, b ∈ s.blocks := by
  intro b hb
  rw [blocks_of_conf ht, blocks_withoutPeer] at hb
  exact blocks_of_conf hconf ▸ List.mem_of_mem_filter hb

theorem holds_saved (hs : s.Sound) (hconf : s.conf = some conf) {block key : Text}
    (hfind : findPeer conf name = some (block, some key)) (ht : t.conf = some (withoutPeer conf name))
    (hfiles : ∀ n y, t.readClientFile n y = (s.saveBlock name block).readClientFile n y) (n k : Text) :
    t.Holds n k ↔ s.Holds n k := by
  obtain ⟨text, htext, hclient, hkey⟩ := hs.saveBlock hconf hfind
  rw [← hfiles] at htext
  refine holds_unlisted hs hconf hfind ht (by rw [hclient.savedKey htext, hkey]) (fun m hm => ?_) n k
  rw [hfiles, readClientFile_saveBlock, if_neg fun h => hm h.1]

theorem live_of_dropKey {pub : Option Text} {k : Text} (h : (s.dropKey pub).live k ≠ none) :
    s.live k ≠ none ∧ pub ≠ some k := by
  rw [live_dropKey] at h
  split_ifs at h with hpub
  · exact absurd rfl h
  · exact ⟨h, hpub⟩

/-- A client's block is saved and taken out, whatever becomes of its live peer. -/
theorem Tracked.Inv.unlist (hx : x.Inv) (hconf : x.server.conf = some conf) {block key : Text}
    (hfind : findPeer conf name = some (block, some key)) (ht : t.conf = some (withoutPeer conf name))
    (hfiles : ∀ n y, t.readClientFile n y = (x.server.saveBlock name block).readClientFile n y)
    (hlive : ∀ k, t.live k ≠ none → x.server.live k ≠ none) : (x.next t).Inv := by
  obtain ⟨text, htext, hclient, -⟩ := hx.sound.saveBlock hconf hfind
  refine hx.keep name (fun b hb => .inl (blocks_withoutPeer_subset hconf ht b hb)) ?_ ?_
    (holds_saved hx.sound hconf hfind ht hfiles) fun k h => .inl (hlive k h)
  · intro n text' htext'
    rw [hfiles] at htext'
    by_cases hn : n = name
    · subst hn
      obtain rfl : text = text' := Option.some.inj (htext.symm.trans htext')
      exact .inr ⟨rfl, hclient⟩
    · rw [readClientFile_saveBlock, if_neg fun h => hn h.1] at htext'
      exact .inl htext'
  · intro n
    rw [hfiles, readClientFile_saveBlock, if_neg (by simp)]

theorem unlisted_withoutPeer (ht : t.conf = some (withoutPeer conf name)) : ∀ b ∈ t.blocks, blockName b ≠ some name :=
  blocks_of_conf ht ▸ findPeer_eq_none.mp (findPeer_withoutPeer conf name)

variable (cfg) in
/-- A client without a block is off only if the key in its saved block is not live. -/
theorem disable_next (hx : x.Inv) (hf : e.FilesOk)
    (hdead : (∀ b ∈ x.server.blocks, blockName b ≠ some name) → ∀ key, savedKey x.server name = some key →
      x.server.live key = none) :
    (x.next (disablePeer cfg e name x.server).2).Inv ∧
      ∀ r t, disablePeer cfg e name x.server = (.ok r, t) → (x.next t).Off name := by
  rcases disablePeer_cases cfg hf name x.server with ⟨err, h⟩ | ⟨conf, hconf, ⟨hfind, h⟩ | ⟨block, pub, hfind, h⟩⟩
  · rw [h]
    exact ⟨hx.same, fun r t ht => by cases (Prod.mk.inj ht).1⟩
  · rw [h]
    have hunlisted : ∀ b ∈ x.server.blocks, blockName b ≠ some name := blocks_of_conf hconf ▸ findPeer_eq_none.mp hfind
    refine ⟨hx.same, fun r t ht => ?_⟩
    obtain rfl : x.server = t := (Prod.mk.inj ht).2
    refine ⟨hunlisted, hx.dead (fun _ h => h) (fun _ h => h) fun key hkey => ?_⟩
    rcases hkey with hlists | hsaved
    · exact absurd hlists (not_lists_of_findPeer hconf hfind key)
    · exact hdead hunlisted key hsaved
  · obtain ⟨-, key, rfl, hlists⟩ := hx.sound.of_findPeer hconf hfind
    rcases h with ⟨-, h⟩ | ⟨-, err, h⟩
    · rw [h]
      have hconf' : (((x.server.saveBlock name block).write (withoutPeer conf name) .server).dropKey (some key)).conf =
          some (withoutPeer conf name) := by rw [conf_dropKey]; rfl
      have hsub : ∀ k,
        (((x.server.saveBlock name block).write (withoutPeer conf name) .server).dropKey (some key)).live k ≠ none →
          x.server.live k ≠ none := fun k hk => by
        have hold := (live_of_dropKey hk).1
        rwa [live_write, live_saveBlock] at hold
      refine ⟨hx.unlist hconf hfind hconf' (fun n y => readClientFile_dropKey ..) hsub, fun r t ht => ?_⟩
      obtain rfl := (Prod.mk.inj ht).2
      refine ⟨unlisted_withoutPeer hconf', hx.dead ?_ hsub fun k hk => ?_⟩
      · exact fun k h => (holds_saved hx.sound hconf hfind hconf' (fun n y => readClientFile_dropKey ..) name k).mp h
      · rw [live_dropKey, if_pos (congrArg some (hx.sound.one name key k (.inl hlists) hk))]
    · rw [h]
      refine ⟨hx.unlist hconf hfind rfl (fun _ _ => rfl) fun k hk => ?_, fun r t ht => by cases (Prod.mk.inj ht).1⟩
      rwa [live_write, live_saveBlock] at hk

/-! ### Turning on -/

/-- The live peer of a client is set up under the client's key. -/
theorem ClientBlock.pub_eq {block pub psk ips : Text} (h : ClientBlock name block)
    (hvalues : peerValues block = some (pub, psk, ips)) :
    blockValue publicKey block = some pub := by
  rw [peerValues, getValue_savedLines h.plain (by decide)] at hvalues
  obtain ⟨pub', hpub, hvalues⟩ := Option.bind_eq_some_iff.mp hvalues
  obtain ⟨psk', -, hvalues⟩ := Option.bind_eq_some_iff.mp hvalues
  obtain ⟨ips', -, hvalues⟩ := Option.map_eq_some_iff.mp hvalues
  rw [hpub, (Prod.mk.inj hvalues).1]

/-- A saved block is put back, whatever becomes of its live peer. -/
theorem Tracked.Inv.restore (hx : x.Inv) (hconf : x.server.conf = some conf) {block key : Text}
    (hsaved : x.server.readClientFile name .peer = some block) (hkey : blockValue publicKey block = some key)
    (ht : t.conf = some (addBlock conf (rstripNl block ++ ['\n']))) (hfiles : t.clients = x.server.clients)
    (hlive : ∀ k, t.live k ≠ none → x.server.live k ≠ none ∨ k = key) : (x.next t).Inv := by
  have hblock := hx.sound.saved name block hsaved
  have hback : ClientBlock name (rstripNl block ++ ['\n']) :=
    (clientBlock_newline _).mpr ((clientBlock_rstripNl block).mpr hblock)
  have hbackKey : blockValue publicKey (rstripNl block ++ ['\n']) = some key := by
    rw [blockValue_newline (by decide), blockValue_rstripNl (by decide), hkey]
  have hread : ∀ n y, t.readClientFile n y = x.server.readClientFile n y := fun n y => by
    rw [Server.readClientFile, hfiles, Server.readClientFile]
  have hsavedKey : savedKey x.server name = some key := by rw [hblock.savedKey hsaved, hkey]
  have hholds : ∀ n k, t.Holds n k ↔ x.server.Holds n k := by
    intro n k
    rw [Server.Holds, lists_addBlock hback hconf ht, savedKey_congr (hread n .peer), Server.Holds, hbackKey]
    constructor
    · rintro ((h | ⟨rfl, h⟩) | h)
      · exact .inl h
      · exact .inr (hsavedKey.trans h)
      · exact .inr h
    · exact fun h => h.imp_left .inl
  refine hx.keep name ?_ (fun n text h => .inl (hread n .peer ▸ h)) (fun n => hread n .conf) hholds fun k hk => ?_
  · intro b hb
    rw [blocks_of_conf ht, blocks_addBlock hback.peer, List.mem_append, List.mem_singleton] at hb
    rcases hb with hb | rfl
    · exact .inl (blocks_of_conf hconf ▸ hb)
    · exact .inr ((clientBlock_rstripNl _).mpr hback)
  · rcases hlive k hk with h | rfl
    · exact .inl h
    · exact .inr ⟨name, (hholds name k).mpr (.inr hsavedKey)⟩

variable (cfg) in
theorem enable_next (hx : x.Inv) (hf : e.FilesOk) : (x.next (enablePeer cfg e name x.server).2).Inv := by
  rcases enablePeer_cases cfg hf name x.server with
    ⟨err, h⟩ | ⟨conf, hconf, ⟨block, key, pub, psk, ips, hfind, -, hvalues, h⟩ | ⟨block, -, hsaved, -, h⟩⟩
  · rw [h]
    exact hx.same
  · rw [h]
    obtain ⟨hblock, key', rfl, hlists⟩ := hx.sound.of_findPeer hconf hfind
    have hpub : key' = pub := Option.some.inj ((mem_of_findPeer hfind).2.2.trans (hblock.pub_eq hvalues))
    refine hx.keep name (fun b hb => .inl hb) (fun n text h => .inl h) (fun n => rfl)
      (fun n k => Iff.rfl) fun k hk => ?_
    rcases live_of_setPeer hk with hk | rfl
    · exact .inl hk
    · exact .inr ⟨name, hpub ▸ .inl hlists⟩
  · obtain ⟨key, hkey⟩ := (hx.sound.saved name block hsaved).keyed
    rcases h with ⟨pub, psk, ips, -, hvalues, h⟩ | ⟨-, err, h⟩
    · rw [h]
      obtain rfl : key = pub := Option.some.inj (hkey.symm.trans ((hx.sound.saved name block hsaved).pub_eq hvalues))
      exact hx.restore hconf hsaved hkey rfl rfl fun k hk => live_of_setPeer hk
    · rw [h]
      exact hx.restore hconf hsaved hkey rfl rfl fun k hk => .inl hk

/-! ### Removing -/

/-- Both ways into a removal leave the client without a block, and take its key along. -/
theorem Server.Sound.unlisted (hs : s.Sound) (hconf : s.conf = some conf) {v : Server} {pub : Option Text}
    (hu : s.unlisted conf name = (v, pub)) :
    v.conf = some (withoutPeer conf name) ∧ v.clients = s.clients ∧ v.live = s.live ∧
      ∀ key, s.Holds name key → pub = some key := by
  rw [Server.unlisted] at hu
  cases hfind : findPeer conf name with
  | some found =>
    obtain ⟨block, pub'⟩ := found
    rw [hfind] at hu
    obtain ⟨rfl, rfl⟩ := Prod.mk.inj hu
    obtain ⟨-, key, rfl, hlists⟩ := hs.of_findPeer hconf hfind
    exact ⟨rfl, rfl, rfl, fun k hk => congrArg some (hs.one name key k (.inl hlists) hk)⟩
  | none =>
    rw [hfind] at hu
    obtain ⟨rfl, rfl⟩ := Prod.mk.inj hu
    have hsame : withoutPeer conf name = conf := (dropsOnly conf name).untouched (isPeer_of_findPeer_eq_none hfind)
    refine ⟨by rw [hconf, hsame], rfl, rfl, fun k hk => ?_⟩
    rcases hk with hlists | hsaved
    · exact absurd hlists (not_lists_of_findPeer hconf hfind k)
    · exact hsaved

/-- A client is removed with its live peer and its files. -/
theorem Tracked.Inv.remove (hx : x.Inv) (hconf : x.server.conf = some conf) (ht : t.conf = some (withoutPeer conf name))
    (hfiles : ∀ n y, t.readClientFile n y = if n = name then none else x.server.readClientFile n y)
    (hlive : ∀ k, t.live k ≠ none → x.server.live k ≠ none) (hdead : ∀ k, x.server.Holds name k → t.live k = none) :
    (x.next t).Inv ∧ (x.next t).Off name := by
  have hnone : ∀ k, ¬ t.Holds name k := by
    intro k hk
    rcases hk with hlists | hsaved
    · exact ((lists_withoutPeer hconf ht name k).mp hlists).1 rfl
    · rw [savedKey_of_none (by rw [hfiles, if_pos rfl])] at hsaved
      cases hsaved
  have hother : ∀ n ≠ name, ∀ k, t.Holds n k ↔ x.server.Holds n k := fun n hn k => by
    have hkey : savedKey t n = savedKey x.server n := savedKey_congr (by rw [hfiles, if_neg hn])
    rw [Server.Holds, lists_withoutPeer hconf ht, hkey, Server.Holds]
    simp [hn]
  have hholds : ∀ n k, t.Holds n k → n ≠ name ∧ x.server.Holds n k := by
    intro n k hk
    have hn : n ≠ name := by
      rintro rfl
      exact hnone k hk
    exact ⟨hn, (hother n hn k).mp hk⟩
  refine ⟨hx.next name ?_ (fun n k hk => .inl (hholds n k hk).2) (fun n k hk hlivek => ?_)
    fun k hk => .inl (hlive k hk), unlisted_withoutPeer ht, hx.dead (fun k hk => absurd hk (hnone k)) hlive hdead⟩
  · refine hx.sound.of_client name (fun b hb => .inl (blocks_withoutPeer_subset hconf ht b hb)) ?_
      (fun n hn k hk => (hother n hn k).mp hk) (fun n hn => by rw [hfiles, if_neg hn])
        (fun k _ hk => absurd hk (hnone k))
      fun k hk => absurd hk (hnone k)
    intro n text htext
    rw [hfiles] at htext
    split_ifs at htext
    exact .inl htext
  · have hn : n ≠ name := by
      rintro rfl
      exact hlivek (hdead k hk)
    exact (hother n hn k).mpr hk

variable (cfg) in
/-- A client without a saved block is lost when its block is gone and its live peer is not. -/
theorem remove_next (hx : x.Inv) (hf : e.FilesOk)
    (hsaved : (∃ b ∈ x.server.blocks, blockName b = some name) → x.server.readClientFile name .peer = none →
      e.awgError .removePeer = none) :
    (x.next (removePeer cfg e name x.server).2).Inv ∧
      ∀ r t, removePeer cfg e name x.server = (.ok r, t) → (x.next t).Off name := by
  rcases removePeer_cases cfg hf name x.server with ⟨err, h⟩ | ⟨conf, hconf, h⟩
  · rw [h]
    exact ⟨hx.same, fun r t ht => by cases (Prod.mk.inj ht).1⟩
  rcases hu : x.server.unlisted conf name with ⟨v, pub⟩
  rw [hu] at h
  obtain ⟨hvconf, hvclients, hvlive, hvpub⟩ := hx.sound.unlisted hconf hu
  have hvread : ∀ n y, v.readClientFile n y = x.server.readClientFile n y := fun n y => by
    rw [Server.readClientFile, hvclients, Server.readClientFile]
  rcases h with ⟨-, h⟩ | ⟨⟨hawg, -⟩, err, h⟩
  · rw [h]
    have hstep := hx.remove (t := (v.dropKey pub).withoutFiles name) hconf
      (by rw [Server.withoutFiles, conf_removeClientFile, conf_removeClientFile, conf_dropKey, hvconf])
      (fun n y => by rw [readClientFile_withoutFiles, readClientFile_dropKey, hvread])
      (fun k hk => hvlive ▸ (live_of_dropKey hk).1)
      (fun k hk => by
        rw [Server.withoutFiles, live_removeClientFile, live_removeClientFile, live_dropKey, if_pos (hvpub k hk)])
    exact ⟨hstep.1, fun r t ht => (Prod.mk.inj ht).2 ▸ hstep.2⟩
  · rw [h]
    refine ⟨?_, fun r t ht => by cases (Prod.mk.inj ht).1⟩
    cases hfind : findPeer conf name with
    | none =>
      rw [Server.unlisted, hfind] at hu
      obtain rfl : x.server = v := (Prod.mk.inj hu).1
      exact hx.same
    | some found =>
      obtain ⟨block, pub'⟩ := found
      obtain ⟨-, key, rfl, hlists⟩ := hx.sound.of_findPeer hconf hfind
      have hpeer : x.server.readClientFile name .peer ≠ none := fun hnone =>
        hawg (hsaved (hlists.imp fun b hb => ⟨hb.1, hb.2.1⟩) hnone)
      obtain ⟨text, htext⟩ := Option.ne_none_iff_exists'.mp hpeer
      have hclient := hx.sound.saved name text htext
      obtain ⟨key', hkey'⟩ := hclient.keyed
      have hkey : savedKey x.server name = some key' := by rw [hclient.savedKey htext, hkey']
      obtain rfl : key = key' := hx.sound.one name key key' (.inl hlists) (.inr hkey)
      have hholds := holds_unlisted hx.sound hconf hfind hvconf (by rw [savedKey_congr (hvread name .peer), hkey])
        fun n _ => hvread n .peer
      exact hx.keep name (fun b hb => .inl (blocks_withoutPeer_subset hconf hvconf b hb))
        (fun n text htext => .inl (hvread n .peer ▸ htext)) (fun n => hvread n .conf) hholds fun k hk =>
        .inl (hvlive ▸ hk)

/-! ### Runs -/

/-- The command is not one after which the client's live peer is out of sight: a new client has a name
it can be found by; a client is turned off that has its block still or is not live; and where no block
is saved, `awg` takes the live peer out with the block. -/
def Command.Careful (s : Server) (e : Env) : Command → Prop
  | .create _ label => label.getLast? ≠ some '\n'
  | .disable name => (∀ b ∈ s.blocks, blockName b ≠ some name) → ∀ key ∈ savedKey s name, s.live key = none
  | .enable _ => True
  | .remove name =>
    (∃ b ∈ s.blocks, blockName b = some name) → s.readClientFile name .peer = none → e.awgError .removePeer = none

/-- Only calls of `awg` fail, and the keys it makes are new. -/
structure Tracked.Allows (x : Tracked) (a : Command × Env) : Prop where
  files : a.2.FilesOk
  keys : (∃ id label, a.1 = .create id label) → a.2.WordKeys ∧ ∀ n, ¬ x.held n a.2.newPub

def Tracked.step (cfg : Settings) (x : Tracked) (a : Command × Env) : Option Tracked :=
  some (x.next (a.1.exec cfg a.2 x.server).2)

/-- When the command turns off or removes a client and reports success, the client is off. -/
def Tracked.OffAfter (cfg : Settings) (x : Tracked) (a : Command × Env) : Prop :=
  ∀ name, a.1 = .disable name ∨ a.1 = .remove name →
    ∀ r t, a.1.exec cfg a.2 x.server = (.ok r, t) → (x.next t).Off name

/-- The server with the keys its clients have now. -/
def Server.tracked (s : Server) : Tracked := ⟨s, s.Holds⟩

theorem Tracked.Inv.step {y : Tracked} {a : Command × Env} (hx : x.Inv) (hallows : x.Allows a)
    (hcareful : a.1.Careful x.server a.2)
    (h : x.step cfg a = some y) : y.Inv ∧ x.OffAfter cfg a := by
  obtain rfl := Option.some.inj h
  obtain ⟨c, e⟩ := a
  cases c with
  | create id label =>
    obtain ⟨hkeys, hfresh⟩ := hallows.keys ⟨id, label, rfl⟩
    simp only [Command.exec, Cmd.snd_return]
    exact ⟨create_next cfg hx hallows.files hkeys hfresh hcareful, fun name hname => by simp at hname⟩
  | disable name =>
    obtain ⟨hinv, hoff⟩ := disable_next cfg hx hallows.files hcareful
    simp only [Command.exec, Cmd.snd_return]
    refine ⟨hinv, fun n hn r t ht => ?_⟩
    obtain rfl : name = n := by simpa using hn
    obtain ⟨r', hr', -⟩ := Cmd.of_return_ok ht
    exact hoff r' t hr'
  | enable name =>
    simp only [Command.exec, Cmd.snd_return]
    exact ⟨enable_next cfg hx hallows.files, fun n hn => by simp at hn⟩
  | remove name =>
    obtain ⟨hinv, hoff⟩ := remove_next cfg hx hallows.files hcareful
    simp only [Command.exec, Cmd.snd_return]
    refine ⟨hinv, fun n hn r t ht => ?_⟩
    obtain rfl : name = n := by simpa using hn
    obtain ⟨r', hr', -⟩ := Cmd.of_return_ok ht
    exact hoff r' t hr'

/-- In a run of careful commands every client that is turned off or removed is off. -/
theorem offAfter_of_careful {as : List (Command × Env)} (hs : s.Sound)
    (happart : ∀ n m key, s.Holds n key → s.Holds m key → n = m)
    (hrun : Machine.Along (Tracked.step cfg) (fun x a => x.Allows a ∧ a.1.Careful x.server a.2) s.tracked as) :
    Machine.Along (Tracked.step cfg) (Tracked.OffAfter cfg) s.tracked as := by
  refine Machine.along_of_invariant (I := Tracked.Inv) (fun x a y hx ha h => (hx.step ha.1 ha.2 h).1)
    (fun x a hx ha => (hx.step ha.1 ha.2 rfl).2) hrun ?_
  exact ⟨hs, fun _ _ h => h, fun _ _ h _ => h, happart⟩

/-! ### Small runs -/

instance (s : Server) (e : Env) : (c : Command) → Decidable (c.Careful s e)
  | .create _ label => inferInstanceAs (Decidable (label.getLast? ≠ some '\n'))
  | .disable name =>
    inferInstanceAs (Decidable ((∀ b ∈ s.blocks, blockName b ≠ some name) → ∀ key ∈ savedKey s name, s.live key = none))
  | .enable _ => inferInstanceAs (Decidable True)
  | .remove name => inferInstanceAs (Decidable
      ((∃ b ∈ s.blocks, blockName b = some name) → s.readClientFile name .peer = none → e.awgError .removePeer = none))

theorem Server.New.not_holds (hs : s.New) (n k : Text) : ¬ s.Holds n k := by
  have hfile : s.readClientFile n .peer = none := by rw [Server.readClientFile, hs.clients, AList.lookup_empty]
  obtain ⟨conf, hconf, hblocks⟩ := hs.conf
  rintro (⟨b, hb, -⟩ | hsaved)
  · rw [blocks_of_conf hconf, hblocks] at hb
    cases hb
  · rw [savedKey_of_none hfile] at hsaved
    cases hsaved

theorem Server.New.sound (hs : s.New) : s.Sound where
  listed b hb := by
    obtain ⟨conf, hconf, hblocks⟩ := hs.conf
    rw [blocks_of_conf hconf, hblocks] at hb
    cases hb
  saved n text h := by
    rw [Server.readClientFile, hs.clients, AList.lookup_empty] at h
    cases h
  one n k _ hk := absurd hk (hs.not_holds n k)
  delivered n k hk := absurd hk (hs.not_holds n k)

theorem smallServer_allows {key : Text} (hkeys : (smallEnv key).WordKeys) (c : Command) :
    smallServer.tracked.Allows (c, smallEnv key) :=
  ⟨fun _ => rfl, fun _ => ⟨hkeys, fun n => smallServer_new.not_holds n _⟩⟩

theorem allows_of_not_create {c : Command} (hc : ∀ id label, c ≠ .create id label) (hf : e.FilesOk) : x.Allows (c, e) :=
  ⟨hf, fun ⟨id, label, h⟩ => absurd h (hc id label)⟩

/-- The interface is down when the client is turned off; it is turned on again, and off. -/
def smallRetry : List (Command × Env) :=
  [(.create smallId "a".toList, smallEnv "azE=".toList), (.disable "a".toList, smallEnvDown "azE=".toList .removePeer),
    (.enable "a".toList, smallEnv "azE=".toList), (.disable "a".toList, smallEnv "azE=".toList)]

theorem offAfter_of_careful_small : Machine.Along (Tracked.step smallSettings) (Tracked.OffAfter smallSettings)
    smallServer.tracked smallRetry := by
  refine offAfter_of_careful smallServer_new.sound (fun n _ k hk => absurd hk (smallServer_new.not_holds n k)) ?_
  refine ⟨⟨smallServer_allows (by decide +kernel) _, by decide +kernel⟩, fun y hy => ?_⟩
  obtain rfl := Option.some.inj hy
  refine ⟨⟨allows_of_not_create (by simp) fun _ => rfl, by decide +kernel⟩, fun y hy => ?_⟩
  obtain rfl := Option.some.inj hy
  refine ⟨⟨allows_of_not_create (by simp) fun _ => rfl, trivial⟩, fun y hy => ?_⟩
  obtain rfl := Option.some.inj hy
  exact ⟨⟨allows_of_not_create (by simp) fun _ => rfl, by decide +kernel⟩, fun _ _ => trivial⟩

theorem not_offAfter_of_live {a : Command × Env} (name key : Text) (ha : a.1 = .disable name ∨ a.1 = .remove name)
    (hok : (a.1.exec cfg a.2 x.server).1.isOk = true) (hsaved : savedKey (a.1.exec cfg a.2 x.server).2 name = some key)
    (hlive : (a.1.exec cfg a.2 x.server).2.live key ≠ none) : ¬ x.OffAfter cfg a := by
  intro hoff
  obtain ⟨r, hr⟩ := Cmd.exists_ok hok
  exact hlive ((hoff name ha r _ hr).dead key (.inr (.inr hsaved)))

/-- Turned off again after the failure, the client is reported off while its peer is live. -/
theorem not_offAfter_disable_again :
    ∃ (cfg : Settings) (s : Server) (as : List (Command × Env)), s.New ∧
      Machine.Along (Tracked.step cfg) Tracked.Allows s.tracked as ∧
      ¬ Machine.Along (Tracked.step cfg) (Tracked.OffAfter cfg) s.tracked as := by
  let again : List (Command × Env) :=
    [(.create smallId "a".toList, smallEnv "azE=".toList),
      (.disable "a".toList, smallEnvDown "azE=".toList .removePeer), (.disable "a".toList, smallEnv "azE=".toList)]
  refine ⟨smallSettings, smallServer, again, smallServer_new, ?_, fun h => ?_⟩
  · refine ⟨smallServer_allows (by decide +kernel) _, fun y hy => ?_⟩
    obtain rfl := Option.some.inj hy
    refine ⟨allows_of_not_create (by simp) fun _ => rfl, fun y hy => ?_⟩
    obtain rfl := Option.some.inj hy
    exact ⟨allows_of_not_create (by simp) fun _ => rfl, fun _ _ => trivial⟩
  · obtain ⟨hoff, -⟩ := (h.2 _ rfl).2 _ rfl
    exact not_offAfter_of_live "a".toList (smallEnv "azE=".toList).newPub (.inl rfl) (by decide +kernel)
      (by decide +kernel)
      (by decide +kernel) hoff

end AmneziaVpnBot.Vpnctl
