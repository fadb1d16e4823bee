import AmneziaVpnBot.Vpnctl.Named

/-! A client turned off and on again. The block goes out of the config and comes back from the
saved file, so what comes back is what was saved: by this disable, or before it. -/

namespace AmneziaVpnBot.Vpnctl

open Text

variable {cfg : Settings} {e₁ e₂ : Env} {s s₁ t : Server} {name conf : Text}

/-- The blocks of that name in the config. -/
def named (name conf : Text) : List Text := (blocks conf).filter fun b => blockName b = some name

/-- The three settings of a block, as they are read in the config. -/
def blockSettings (block : Text) : Option (Text × Text × Text) :=
  (blockValue publicKey block).bind fun pub =>
    (blockValue presharedKey block).bind fun psk => (blockValue allowedIpsKey block).map fun ips => (pub, psk, ips)

/-- The config has one block of that name, with these settings, and so has the live interface. -/
structure HasClient (t : Server) (name : Text) (v : Text × Text × Text) : Prop where
  block : ∃ conf b, t.conf = some conf ∧ named name conf = [b] ∧ blockSettings b = some v
  live : t.liveAs v.1 = some v.2

/-- The saved text has one block of that name, and the block and the text as a whole have these settings. -/
def Keeps (name saved : Text) (v : Text × Text × Text) : Prop :=
  (∃ b, named name saved = [b] ∧ blockSettings b = some v) ∧ peerValues saved = some v

/-! ### Values without line ends -/

/-- Without a space at its end a line has no value more, and a value that is not blank stays. -/
theorem lineValue_space {key : Text} (hkey : IsWord key) {c : Char} (hc : isSpace c = true) (l : Text) :
    (lineValue key (l ++ [c]) = none → lineValue key l = none) ∧
      ∀ v, lineValue key (l ++ [c]) = some v → strip v ≠ [] → lineValue key l = some v := by
  simp only [lineValue, matchKey_space hkey hc]
  cases matchKey key l with
  | none => simp
  | some rest =>
    simp only [Option.map_some, Option.bind_some]
    constructor
    · intro h
      rw [captured, strip_space hc] at h
      rw [captured]
      split_ifs at h ⊢ with hrest
      rw [Option.map_eq_none_iff, List.getLast?_eq_none_iff, List.filter_append, List.append_eq_nil_iff] at h
      rw [h.1]
      rfl
    · intro v h hv
      obtain ⟨rfl, -⟩ := captured_eq_some h hv
      rw [strip_space hc] at hv ⊢
      rw [captured, if_pos (by rwa [strip_strip] at hv)]

theorem lineValue_chomp {key : Text} (hkey : IsWord key) (l : Text) :
    (lineValue key l = none → lineValue key (chomp l) = none) ∧
      ∀ v, lineValue key l = some v → strip v ≠ [] → lineValue key (chomp l) = some v := by
  induction l using List.reverseRecOn with
  | nil => exact ⟨id, fun v h _ => h⟩
  | append_singleton l c ih =>
    cases hc : isBreak c with
    | false =>
      have hchomp : chomp (l ++ [c]) = l ++ [c] := List.rdropWhile_concat_neg _ _ _ (by simp [hc])
      rw [hchomp]
      exact ⟨id, fun v h _ => h⟩
    | true =>
      have hchomp : chomp (l ++ [c]) = chomp l := List.rdropWhile_concat_pos _ _ _ hc
      obtain ⟨hnone, hsome⟩ := lineValue_space hkey (isSpace_of_isBreak hc) l
      rw [hchomp]
      exact ⟨fun h => ih.1 (hnone h), fun v h hv => ih.2 v (hsome v h hv) hv⟩

/-- A value that is not blank is read the same with and without line ends. -/
theorem getValue_chomp {key v : Text} (hkey : IsWord key) {lines : List Text} (h : getValue lines key = some v)
    (hv : strip v ≠ []) : getValue (lines.map chomp) key = some v := by
  induction lines with
  | nil => exact h
  | cons l lines ih =>
    rw [getValue, List.findSome?_cons] at h
    rw [getValue, List.map_cons, List.findSome?_cons]
    cases hl : lineValue key l with
    | none =>
      rw [hl] at h
      rw [(lineValue_chomp hkey l).1 hl]
      exact ih h
    | some w =>
      rw [hl] at h
      obtain rfl := Option.some.inj h
      rw [(lineValue_chomp hkey l).2 w hl hv]

theorem blockSettings_eq_some {b pub psk ips : Text} : blockSettings b = some (pub, psk, ips) ↔
    blockValue publicKey b = some pub ∧ blockValue presharedKey b = some psk ∧
    blockValue allowedIpsKey b = some ips := by
  simp only [blockSettings, Option.bind_eq_some_iff, Option.map_eq_some_iff, Prod.mk.injEq]
  constructor
  · rintro ⟨_, hpub, _, hpsk, _, hips, rfl, rfl, rfl⟩
    exact ⟨hpub, hpsk, hips⟩
  · rintro ⟨hpub, hpsk, hips⟩
    exact ⟨_, hpub, _, hpsk, _, hips, rfl, rfl, rfl⟩

theorem peerValues_eq {b pub psk ips : Text} (h : blockSettings b = some (pub, psk, ips)) (hpub : strip pub ≠ [])
    (hpsk : strip psk ≠ []) (hips : strip ips ≠ []) : peerValues b = some (pub, psk, ips) := by
  obtain ⟨h₁, h₂, h₃⟩ := blockSettings_eq_some.mp h
  rw [peerValues, savedLines, getValue_chomp (by decide) h₁ hpub, getValue_chomp (by decide) h₂ hpsk,
    getValue_chomp (by decide) h₃ hips]
  rfl

/-! ### Blocks of one name -/

theorem named_eq (name conf : Text) :
    named name conf = ((splitSections conf).filter (·.isPeer name)).map fun s => rstripNl s.text := by
  rw [named, blocks, bodies, contents, List.filter_map, List.filter_filter, List.filter_filterMap, List.map_filterMap,
    ← List.filterMap_eq_map, List.filterMap_filter]
  refine List.filterMap_congr fun s hs => ?_
  rw [Section.isPeer_eq hs, Section.content]
  cases s.header with
  | none => rfl
  | some header =>
    simp only [Option.map_some, Function.comp_apply, Option.any_some]
    generalize rstripNl s.text = b
    by_cases hheader : header = peerHeader <;> by_cases hname : blockName b = some name <;>
      simp [isBlockOf, Option.filter, hheader, hname]

theorem named_withoutPeer (name conf : Text) : named name (withoutPeer conf name) = [] := by
  rw [named, blocks_withoutPeer, List.filter_filter, List.filter_eq_nil_iff]
  intro b _
  simp

theorem named_newline (name t : Text) : named name (t ++ ['\n']) = named name t := by
  simp only [named, blocks, bodies, contents_newline]

theorem named_rstripNl (name t : Text) : named name (rstripNl t) = named name t := eq_rstripNl _ (named_newline name) t

theorem peerName_append {line : Text} {rest : List Text} (hne : rest ≠ []) (more : List Text) :
    peerName (line :: rest ++ more) = peerName (line :: rest) := by
  obtain ⟨l, ls, rfl⟩ := List.exists_cons_of_ne_nil hne
  rfl

/-- Text that is put behind a blank line names no section before it. -/
theorem named_addBlock {u : Text} (h : named name u = []) (v : Text) : named name (addBlock u v) = named name v := by
  have hended : Ended (rstripNl u ++ ['\n'] ++ ['\n']) := ended_concat.mpr (by decide)
  have hold : named name (rstripNl u ++ ['\n'] ++ ['\n']) = [] := by
    rw [named_newline, named_newline, named_rstripNl, h]
  have hblank : splitlines (rstripNl u ++ ['\n'] ++ ['\n']) = splitlines (rstripNl u ++ ['\n']) ++ [['\n']] := by
    rw [splitlines_append (ended_concat.mpr (by decide))]
    rfl
  rw [addBlock_eq, named_eq, named_eq, splitSections, splitSections, splitlines_append hended]
  rw [named_eq, List.map_eq_nil_iff, splitSections] at hold
  obtain ⟨pre, ss, hlines, hpre, hss⟩ := exists_sections (splitlines (rstripNl u ++ ['\n'] ++ ['\n']))
  obtain ⟨pre', ts, hlines', hpre', hts⟩ := exists_sections (splitlines v)
  rw [hlines, sectionsOf_eq hpre hss, List.filter_append, List.append_eq_nil_iff] at hold
  have hpreamble : ∀ ls, (preamble ls).filter (·.isPeer name) = [] := by
    intro ls
    cases ls <;> simp [preamble, Section.isPeer]
  refine congrArg _ ?_
  rw [hlines', sectionsOf_eq hpre' hts, List.filter_append, hpreamble, List.nil_append, hlines]
  rcases List.eq_nil_or_concat ss with rfl | ⟨front, last, rfl⟩
  · have hboth : ∀ l ∈ pre ++ pre', isHeader l = false := fun l hl => (List.mem_append.mp hl).elim (hpre l) (hpre' l)
    have hsplit := sectionsOf_eq hboth hts
    rw [List.flatMap_nil, List.append_nil, ← List.append_assoc, hsplit, List.filter_append, hpreamble, List.nil_append]
  · rw [List.concat_eq_append] at *
    obtain ⟨line, rest, rfl, hline, hrest⟩ := hss last (by simp)
    -- the blank line is behind the header, so the lines after it are not the section's name
    have hne : rest ≠ [] := by
      rintro rfl
      rw [hblank, List.flatMap_append, ← List.append_assoc] at hlines
      obtain ⟨-, hlast⟩ := List.append_inj' hlines rfl
      rw [← List.singleton_inj.mp hlast] at hline
      exact absurd hline (by decide)
    have hgrown : ∀ s ∈ front ++ [Section.mk (some (strip line)) (line :: rest ++ pre')] ++ ts, s.Headed := by
      intro s hs
      simp only [List.mem_append, List.mem_singleton] at hs
      rcases hs with (hs | rfl) | hs
      · exact hss s (by simp [hs])
      · exact ⟨line, rest ++ pre', rfl, hline, fun l hl => (List.mem_append.mp hl).elim (hrest l) (hpre' l)⟩
      · exact hts s hs
    have hsplit := sectionsOf_eq hpre hgrown
    have hjoin : pre ++ (front ++ [Section.mk (some (strip line)) (line :: rest)]).flatMap Section.lines ++
        (pre' ++ ts.flatMap Section.lines) =
          pre ++ (front ++ [Section.mk (some (strip line)) (line :: rest ++ pre')] ++ ts).flatMap
          Section.lines := by
      simp [List.flatMap_append]
    have hsame : Section.isPeer name ⟨some (strip line), line :: rest ++ pre'⟩ =
        Section.isPeer name ⟨some (strip line), line :: rest⟩ := by
      simp only [Section.isPeer, peerName_append hne]
    have hgone := List.filter_eq_nil_iff.mp hold.2
    rw [hjoin, hsplit, List.filter_append, hpreamble, List.nil_append, List.filter_append, List.append_left_eq_self,
      List.filter_eq_nil_iff]
    intro s hs
    rcases List.mem_append.mp hs with hs | hs
    · exact hgone s (List.mem_append_left _ hs)
    · rw [List.mem_singleton.mp hs, hsame]
      exact hgone _ (by simp)

/-- Where names are distinct, a block is the only one of its name. -/
theorem named_of_nodup {b : Text} (hnames : ((blocks conf).filterMap blockName).Nodup) (hb : b ∈ blocks conf)
    (hname : blockName b = some name) : named name conf = [b] := by
  rw [named]
  revert hnames hb
  generalize blocks conf = bs
  intro hnames hb
  induction bs with
  | nil => cases hb
  | cons c bs ih =>
    rw [List.filterMap_cons] at hnames
    have hrest : blockName c = some name → ∀ d ∈ bs, blockName d ≠ some name := by
      intro hc d hd hdname
      rw [hc] at hnames
      exact (List.nodup_cons.mp hnames).1 (List.mem_filterMap.mpr ⟨d, hd, hdname⟩)
    rcases List.mem_cons.mp hb with rfl | hb
    · rw [List.filter_cons_of_pos (by simpa using hname),
        List.filter_eq_nil_iff.mpr fun d hd => by simpa using hrest hname d hd]
    · have hc : blockName c ≠ some name := fun hc => hrest hc b hb hname
      rw [List.filter_cons_of_neg (by simpa using hc)]
      refine ih ?_ hb
      split at hnames
      · exact hnames
      · exact (List.nodup_cons.mp hnames).2

theorem findPeer_of_named {b : Text} (h : named name conf = [b]) :
    ∃ block, findPeer conf name = some (block, blockValue publicKey b) ∧ rstripNl block = b := by
  have hmap := findPeer_map conf name
  rw [← List.head?_filter, ← named, h, List.head?_cons, Option.map_some, Option.map_eq_some_iff] at hmap
  obtain ⟨⟨block, pub⟩, hfound, heq⟩ := hmap
  obtain ⟨hblock, rfl⟩ := Prod.mk.inj heq
  exact ⟨block, hfound, hblock⟩

/-- The block just saved keeps everything. -/
theorem keeps_saved {b pub psk ips : Text} (h : named name conf = [b]) (hv : blockSettings b = some (pub, psk, ips))
    (hpub : strip pub ≠ []) (hpsk : strip psk ≠ []) (hips : strip ips ≠ []) :
    Keeps name (b ++ ['\n']) (pub, psk, ips) := by
  have hmem : b ∈ named name conf := by simp [h]
  obtain ⟨hb, hname⟩ := List.mem_filter.mp hmem
  obtain ⟨hpeer, hstrip⟩ := isPeer_of_mem_blocks hb
  refine ⟨⟨b, ?_, hv⟩, ?_⟩
  · rw [named_newline, named, blocks, bodies, hpeer.2, hstrip]
    simpa using hname
  · rw [peerValues, getValue_savedLines_newline (by decide), getValue_savedLines_newline (by decide),
      getValue_savedLines_newline (by decide)]
    exact peerValues_eq hv hpub hpsk hips

theorem strip_of_getValue {lines : List Text} {key v : Text} (h : getValue lines key = some v) (hv : strip v ≠ []) :
    strip v = v := by
  obtain ⟨l, -, hl⟩ := List.exists_of_findSome?_eq_some h
  obtain ⟨rest, -, hrest⟩ := Option.bind_eq_some_iff.mp hl
  exact (captured_eq_some hrest hv).2

/-- A saved text put back where its name and its key are gone. -/
theorem hasClient_restored {u : Server} {saved pub psk ips pub' psk' ips' : Text} (hgone : named name conf = [])
    (hoff : u.liveAs pub = none) (hpsk : strip psk = psk) (hfilled : strip psk ≠ [])
    (hvalues : peerValues saved = some (pub', psk', ips')) :
    HasClient ((u.write (addBlock conf (rstripNl saved ++ ['\n'])) .server).setPeer pub' psk' ips') name
      (pub, psk, ips) ↔
      Keeps name saved (pub, psk, ips) := by
  have hnamed : named name (addBlock conf (rstripNl saved ++ ['\n'])) = named name saved := by
    rw [named_addBlock hgone, named_newline, named_rstripNl]
  have hvalue : getValue (savedLines saved) presharedKey = some psk' := by
    rw [peerValues, Option.bind_eq_some_iff] at hvalues
    obtain ⟨_, -, hvalues⟩ := hvalues
    rw [Option.bind_eq_some_iff] at hvalues
    obtain ⟨_, hvalue, hvalues⟩ := hvalues
    obtain ⟨_, -, heq⟩ := Option.map_eq_some_iff.mp hvalues
    rw [hvalue, (Prod.mk.inj (Prod.mk.inj heq).2).1]
  have hlive : ((u.write (addBlock conf (rstripNl saved ++ ['\n'])) .server).setPeer pub' psk' ips').liveAs pub =
      some (psk, ips) ↔ peerValues saved = some (pub, psk, ips) := by
    rw [liveAs_setPeer, liveAs_write, hvalues, hoff, Option.some.injEq, Prod.mk.injEq, Prod.mk.injEq]
    constructor
    · intro h
      split_ifs at h with hkey
      obtain ⟨hstrip, rfl⟩ := Prod.mk.inj (Option.some.inj h)
      refine ⟨hkey.symm, ?_, rfl⟩
      rw [← strip_of_getValue hvalue (by rwa [hstrip, ← hpsk]), hstrip]
    · rintro ⟨rfl, rfl, rfl⟩
      rw [if_pos rfl, hpsk]
  constructor
  · rintro ⟨⟨conf', b, hconf', hone, hv⟩, hup⟩
    obtain rfl := Option.some.inj hconf'
    exact ⟨⟨b, hnamed ▸ hone, hv⟩, hlive.mp hup⟩
  · rintro ⟨⟨b, hone, hv⟩, hkept⟩
    exact ⟨⟨_, b, rfl, hnamed.trans hone, hv⟩, hlive.mpr hkept⟩

/-- A client turned off and on has its block and its live peer back exactly if the file saved for
it before, if there is one, keeps the same block. -/
theorem hasClient_iff {b pub psk ips : Text} {r₁ r₂ : FoundResult} (hconf : s.conf = some conf)
    (hnames : ((blocks conf).filterMap blockName).Nodup) (hb : b ∈ blocks conf) (hname : blockName b = some name)
    (hv : blockSettings b = some (pub, psk, ips)) (hpub : strip pub ≠ []) (hpsk : strip psk ≠ [])
    (hips : strip ips ≠ [])
    (hdisable : disablePeer cfg e₁ name s = (.ok r₁, s₁)) (henable : enablePeer cfg e₂ name s₁ = (.ok r₂, t)) :
    HasClient t name (pub, psk, ips) ↔
      ∀ saved, s.readClientFile name .peer = some saved → Keeps name saved (pub, psk, ips) := by
  have hone := named_of_nodup hnames hb hname
  obtain ⟨block, hfound, hblock⟩ := findPeer_of_named hone
  obtain ⟨hkey, hpskValue, -⟩ := blockSettings_eq_some.mp hv
  obtain ⟨conf', hconf', hcases⟩ := disablePeer_done hdisable
  obtain rfl : conf = conf' := Option.some.inj (hconf.symm.trans hconf')
  rw [hfound, hkey] at hcases
  obtain ⟨hnone, -⟩ | ⟨block', key, hsome, -, rfl⟩ := hcases
  · cases hnone
  obtain ⟨rfl, rfl⟩ := Prod.mk.inj (Option.some.inj hsome)
  obtain ⟨conf', saved, pub', psk', ips', hconf', hvalues, hcases⟩ := enablePeer_done henable
  obtain rfl : withoutPeer conf name = conf' := by simpa using hconf'
  obtain ⟨key, hsome, -⟩ | ⟨-, hsaved, rfl⟩ := hcases
  · rw [findPeer_withoutPeer] at hsome
    cases hsome
  simp only [readClientFile_dropKey, readClientFile_write_server, readClientFile_saveBlock, and_true, if_true,
    Option.some.injEq, hblock] at hsaved
  have hoff : (((s.saveBlock name block).write (withoutPeer conf name) .server).dropKey (some pub)).liveAs
    pub = none := by
    rw [liveAs_dropKey, if_pos rfl]
  rw [hasClient_restored (named_withoutPeer name conf) hoff (strip_of_getValue hpskValue hpsk) hpsk hvalues, ← hsaved]
  cases hold : s.readClientFile name .peer with
  | none =>
    refine iff_of_true ?_ nofun
    exact keeps_saved hone hv hpub hpsk hips
  | some old => simp

def phoneBlock : Text :=
  "[Peer]\n# phone\nPublicKey = bmV3\nPresharedKey = cHNr\nAllowedIPs = 10.0.0.2/32".toList

/-- A server with one client of the shell script, which may have left a file from an earlier client of that name. -/
def phoneServer (left : Option Text) : Server where
  conf := some ("[Interface]\nAddress = 10.0.0.1/29\n\n".toList ++ phoneBlock)
  clients := left.elim ∅ fun saved => AList.singleton "phone.peer".toList saved
  live := fun _ => none

/-- The block of an earlier client of that name. -/
def earlierPhone : Text :=
  "[Peer]\n# phone\nPublicKey = b2xk\nPresharedKey = cHNr\nAllowedIPs = 10.0.0.2/32\n".toList

theorem hasClient_iff_phone :
    ∃ r₁ s₁ r₂ t, disablePeer smallSettings (smallEnv []) "phone".toList (phoneServer none) = (.ok r₁, s₁) ∧
      enablePeer smallSettings (smallEnv []) "phone".toList s₁ = (.ok r₂, t) ∧
      HasClient t "phone".toList ("bmV3".toList, "cHNr".toList, "10.0.0.2/32".toList) := by
  obtain ⟨r₁, h₁⟩ := Cmd.exists_ok (c := disablePeer smallSettings (smallEnv []) "phone".toList) (s := phoneServer none)
    (by decide +kernel)
  obtain ⟨r₂, h₂⟩ := Cmd.exists_ok (c := enablePeer smallSettings (smallEnv []) "phone".toList)
    (s := (disablePeer smallSettings (smallEnv []) "phone".toList (phoneServer none)).2) (by decide +kernel)
  exact ⟨r₁, _, r₂, _, h₁, h₂, (hasClient_iff (b := phoneBlock) rfl (by decide +kernel) (by decide +kernel)
    (by decide +kernel) (by decide +kernel) (by decide +kernel) (by decide +kernel) (by decide +kernel) h₁ h₂).mpr
      nofun⟩

/-- The file of an earlier client is kept, and the client comes back with the earlier client's key. -/
theorem not_hasClient_earlier :
    ∃ (cfg : Settings) (e : Env) (s s₁ t : Server) (conf b name : Text) (v : Text × Text × Text) (r₁ r₂ : FoundResult),
      s.conf = some conf ∧ blocks conf = [b] ∧ blockName b = some name ∧ blockSettings b = some v ∧
      disablePeer cfg e name s = (.ok r₁, s₁) ∧ enablePeer cfg e name s₁ = (.ok r₂, t) ∧ ¬ HasClient t name v := by
  obtain ⟨r₁, h₁⟩ := Cmd.exists_ok (c := disablePeer smallSettings (smallEnv []) "phone".toList)
    (s := phoneServer (some earlierPhone)) (by decide +kernel)
  obtain ⟨r₂, h₂⟩ := Cmd.exists_ok (c := enablePeer smallSettings (smallEnv []) "phone".toList)
    (s := (disablePeer smallSettings (smallEnv []) "phone".toList (phoneServer (some earlierPhone))).2)
      (by decide +kernel)
  refine ⟨_, _, _, _, _, _, phoneBlock, _, ("bmV3".toList, "cHNr".toList, "10.0.0.2/32".toList), r₁, r₂, rfl,
    by decide +kernel, by decide +kernel, by decide +kernel, h₁, h₂, fun h => ?_⟩
  have hlive := h.live
  revert hlive
  decide +kernel

end AmneziaVpnBot.Vpnctl
