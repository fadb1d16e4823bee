import AmneziaVpnBot.Vpnctl.Named

/-! The obfuscation settings of the server in a client's config. One pattern picks the lines that
are copied and another reads the settings, on either side; they agree on every line but those
with other white space than spaces before the `=`, and those with nothing but white space
behind it. -/

namespace AmneziaVpnBot.Vpnctl

open Text

variable {cfg : Settings} {e : Env} {s t : Server} {label conf : Text} {iface : List Text}

/-- The client's `[Interface]` has the value the server's has for each of the keys, or none as well. -/
def Carries (conf clientConf : Text) : Prop :=
  ∃ iface clientIface, interfaceLines conf = some iface ∧ interfaceLines clientConf = some clientIface ∧
    ∀ key ∈ obfuscationKeys, getValue clientIface key = getValue iface key

/-- The value of a line that is copied: there are only spaces in front of its `=`, and it is not blank. -/
def copiedValue (key line : Text) : Option Text :=
  (afterPrefix key (strip line)).bind fun rest => match rest.dropWhile (· = ' ') with
    | '=' :: value => if strip value = [] then none else some (strip value)
    | _ => none

/-- The lines of the two settings in front of the copied ones. -/
def settingLines (cfg : Settings) : List Text :=
  splitlines (setting "DNS".toList cfg.clientDns) ++ splitlines (setting "MTU".toList cfg.clientMtu)

/-- These settings write no section header and no obfuscation setting. -/
def Settings.WriteNone (cfg : Settings) : Prop :=
  ∀ l ∈ settingLines cfg, isHeader l = false ∧ ∀ key ∈ obfuscationKeys, lineValue key l = none

instance (cfg : Settings) : Decidable cfg.WriteNone := inferInstanceAs (Decidable (∀ l ∈ settingLines cfg, _ ∧ _))

/-! ### One line -/

theorem dropWhile_spaces {rest value : Text} (h : rest.dropWhile (· = ' ') = '=' :: value) :
    rest.dropWhile isSpace = '=' :: value := by
  induction rest with
  | nil => cases h
  | cons c cs ih =>
    by_cases hc : c = ' '
    · rw [List.dropWhile_cons_of_pos (by simpa using hc)] at h
      rw [List.dropWhile_cons_of_pos (by rw [hc]; decide), ih h]
    · rw [List.dropWhile_cons_of_neg (by simpa using hc)] at h
      obtain ⟨rfl, rfl⟩ := List.cons.inj h
      rfl

theorem dropWhile_strip (l : Text) : (strip l).dropWhile isSpace = strip l := by
  by_cases h : strip l = []
  · rw [h]
    rfl
  have hne := dropWhile_ne_nil h
  have hhead : (l.dropWhile isSpace).head hne = (strip l).head h := by
    obtain ⟨tail, htail⟩ : strip l <+: l.dropWhile isSpace := List.rdropWhile_prefix _ _
    simp only [← htail, List.head_append_of_ne_nil h]
  obtain ⟨c, cs, hc⟩ := List.exists_cons_of_ne_nil h
  have hspace := List.head_dropWhile_not isSpace hne
  simp only [hhead, hc, List.head_cons] at hspace
  rw [hc, List.dropWhile_cons_of_neg (by simp [hspace])]

/-- A line but for the white space around it. -/
theorem exists_around (l : Text) :
    ∃ u v, l = u ++ strip l ++ v ∧ (∀ c ∈ u, isSpace c = true) ∧ ∀ c ∈ v, isSpace c = true := by
  refine ⟨l.takeWhile isSpace, (l.dropWhile isSpace).rtakeWhile isSpace, ?_, fun c => List.mem_takeWhile_imp,
    fun c => List.mem_rtakeWhile_imp⟩
  rw [List.append_assoc, strip, List.rdropWhile_append_rtakeWhile, List.takeWhile_append_dropWhile]

/-- A value that is not blank is read whatever white space is put around its line. -/
theorem lineValue_around {key l v : Text} (hkey : IsWord key) (h : lineValue key (strip l) = some v)
    (hv : strip v ≠ []) :
    lineValue key l = some v := by
  obtain ⟨u, w, hl, hu, hw⟩ := exists_around l
  have hfront : lineValue key (strip l ++ w) = some v := by
    clear hl
    induction w using List.reverseRecOn with
    | nil => rwa [List.append_nil]
    | append_singleton w c ih =>
      have ih := ih fun d hd => hw d (List.mem_append_left _ hd)
      have hc := hw c (by simp)
      obtain ⟨rest, hrest, hcaptured⟩ := Option.bind_eq_some_iff.mp ih
      obtain ⟨rfl, -⟩ := captured_eq_some hcaptured hv
      rw [← List.append_assoc, lineValue, matchKey_space hkey hc, hrest, Option.map_some, Option.bind_some, captured,
        strip_space hc, if_pos (by rwa [strip_strip] at hv)]
  rw [hl, List.append_assoc, lineValue, matchKey, List.dropWhile_append_of_pos hu]
  exact hfront

theorem obfuscationKey_word {key : Text} (h : key ∈ obfuscationKeys) : IsWord key ∧ '=' ∉ key := by
  revert key
  decide

/-- Only one key stands in front of the `=`. -/
theorem key_unique {key other line rest rest' value value' : Text} (hkey : key ∈ obfuscationKeys)
    (hother : other ∈ obfuscationKeys)
    (h : afterPrefix key line = some rest) (h' : afterPrefix other line = some rest')
    (hvalue : rest.dropWhile isSpace = '=' :: value) (hvalue' : rest'.dropWhile isSpace = '=' :: value') :
    key = other := by
  -- the longer key would begin with the shorter and an `=`
  have hshort : ∀ {k : Text} {u r r' v : Text}, k ++ u ∈ obfuscationKeys → r = u ++ r' →
    r.dropWhile isSpace = '=' :: v → u = [] := by
    intro k u r r' v hmem hr hv
    obtain ⟨hword, hequals⟩ := obfuscationKey_word hmem
    cases u with
    | nil => rfl
    | cons d ds =>
      have hd : isSpace d = false := hword.2 d (by simp)
      rw [hr, List.cons_append, List.dropWhile_cons_of_neg (by simp [hd])] at hv
      rw [(List.cons.inj hv).1] at hequals
      simp at hequals
  rcases List.append_eq_append_iff.mp ((afterPrefix_eq_some h).symm.trans (afterPrefix_eq_some h')) with
    ⟨u, rfl, hrest⟩ | ⟨u, rfl, hrest⟩
  · rw [hshort hother hrest hvalue, List.append_nil]
  · rw [hshort hkey hrest hvalue', List.append_nil]

theorem isObfuscation_iff {line : Text} : isObfuscation line = true ↔
    ∃ key ∈ obfuscationKeys, ∃ rest value, afterPrefix key line = some rest ∧
    rest.dropWhile (· = ' ') = '=' :: value := by
  simp only [isObfuscation, List.any_eq_true, Option.any_eq_true, decide_eq_true_eq, List.head?_eq_some_iff,
    exists_and_left]

/-- Nothing but white space behind the `=` of a stripped line: there is nothing. -/
theorem value_of_stripped {l pre value : Text} (h : strip l = pre ++ '=' :: value) (hvalue : strip value = []) :
    value = [] := by
  rcases List.eq_nil_or_concat value with rfl | ⟨init, c, rfl⟩
  · rfl
  rw [List.concat_eq_append] at h hvalue
  have hc : isSpace c = true := strip_eq_nil.mp hvalue c (by simp)
  have hne : strip l ≠ [] := by simp [h]
  have hlast := List.rdropWhile_last_not isSpace (l.dropWhile isSpace) hne
  have hend : (strip l).getLast hne = c := by simp [h]
  change ¬ isSpace ((strip l).getLast hne) = true at hlast
  rw [hend] at hlast
  exact absurd hc hlast

/-- A line that is copied and read is one that `copiedValue` reads. -/
theorem lineValue_copied {key : Text} (hkey : key ∈ obfuscationKeys) (l : Text) :
    (if isObfuscation (strip l) then lineValue key (strip l) else none) = copiedValue key l := by
  rw [lineValue, matchKey, dropWhile_strip, copiedValue]
  cases hrest : afterPrefix key (strip l) with
  | none => simp
  | some rest =>
    simp only [Option.bind_some]
    by_cases hplain : ∃ value, rest.dropWhile (· = ' ') = '=' :: value
    · obtain ⟨value, hvalue⟩ := hplain
      have hobfuscation : isObfuscation (strip l) = true :=
        isObfuscation_iff.mpr ⟨key, hkey, rest, value, hrest, hvalue⟩
      simp only [if_pos hobfuscation, dropWhile_spaces hvalue, hvalue, Option.bind_some, captured, ite_not]
      split_ifs with hblank
      · have hline : strip l = key ++ rest.takeWhile (· = ' ') ++ '=' :: value := by
          rw [afterPrefix_eq_some hrest, List.append_assoc, ← hvalue, List.takeWhile_append_dropWhile]
        rw [value_of_stripped hline hblank]
        rfl
      · rfl
    · have hnone : (match rest.dropWhile (· = ' ') with
          | '=' :: value => if strip value = [] then none else some (strip value)
          | _ => none) = none := by
        split
        · rename_i value hvalue
          exact absurd ⟨value, hvalue⟩ hplain
        · rfl
      rw [hnone, ite_eq_right_iff]
      intro hobfuscation
      obtain ⟨other, hother, rest', value', hrest', hvalue'⟩ := isObfuscation_iff.mp hobfuscation
      split
      · rename_i value hvalue
        obtain rfl := key_unique hkey hother hrest hrest' hvalue (dropWhile_spaces hvalue')
        obtain rfl := Option.some.inj (hrest.symm.trans hrest')
        exact absurd ⟨value', hvalue'⟩ hplain
      · rfl

theorem copiedValue_eq_some {key l v : Text} (hkey : key ∈ obfuscationKeys) (h : copiedValue key l = some v) :
    lineValue key l = some v := by
  have hv : strip v ≠ [] := by
    rw [copiedValue, Option.bind_eq_some_iff] at h
    obtain ⟨rest, -, h⟩ := h
    split at h
    · rename_i value _
      split_ifs at h with hblank
      rw [← Option.some.inj h, strip_strip]
      exact hblank
    · cases h
  rw [← lineValue_copied hkey, Option.ite_none_right_eq_some] at h
  exact lineValue_around (obfuscationKey_word hkey).1 h.2 hv

/-! ### The lines of the client -/

theorem getValue_copied {key : Text} (hkey : key ∈ obfuscationKeys) (iface : List Text) :
    getValue ((iface.map strip).filter isObfuscation) key = iface.findSome? (copiedValue key) := by
  induction iface with
  | nil => rfl
  | cons l ls ih =>
    rw [List.findSome?_cons, ← lineValue_copied hkey, ← ih, List.map_cons, getValue, List.filter_cons]
    split_ifs
    · rw [List.findSome?_cons]
      rfl
    · rfl

theorem unbroken_strip {l : Text} (h : IsLine l) : ∀ c ∈ strip l, isBreak c = false := by
  rcases List.eq_nil_or_concat l with rfl | ⟨init, d, rfl⟩
  · exact absurd rfl h.1
  rw [List.concat_eq_append] at h ⊢
  rw [isLine_concat] at h
  by_cases hd : isBreak d = true
  · rw [strip_space (isSpace_of_isBreak hd)]
    exact fun c hc => h c ((List.dropWhile_sublist _).mem ((List.rdropWhile_prefix _ _).mem hc))
  · intro c hc
    have hmem := (List.dropWhile_sublist isSpace).mem ((List.rdropWhile_prefix _ _).mem hc)
    rcases List.mem_append.mp hmem with hmem | hmem
    · exact h c hmem
    · simpa [List.mem_singleton.mp hmem] using hd

theorem splitlines_intercalate {ls : List Text} (h : ∀ l ∈ ls, ∀ c ∈ l, isBreak c = false) :
    ∃ blanks, splitlines (List.intercalate ['\n'] ls ++ ['\n', '\n']) = ls.map (· ++ ['\n']) ++ blanks ∧
    ∀ l ∈ blanks, l = ['\n'] := by
  have hlines : ∀ ls : List Text, (∀ l ∈ ls, ∀ c ∈ l, isBreak c = false) →
      splitlines ((ls.map (· ++ ['\n'])).flatten ++ ['\n']) = ls.map (· ++ ['\n']) ++ [['\n']] := by
    intro ls h
    induction ls with
    | nil => rfl
    | cons l ls ih =>
      obtain ⟨hline, hended⟩ := isLine_newline (h l List.mem_cons_self)
      rw [List.map_cons, List.flatten_cons, List.append_assoc, splitlines_append hended, splitlines_of_isLine hline,
        ih fun m hm => h m (List.mem_cons_of_mem _ hm)]
      rfl
  rcases List.eq_nil_or_concat ls with rfl | ⟨init, l, rfl⟩
  · exact ⟨[['\n'], ['\n']], by decide, by simp⟩
  · refine ⟨[['\n']], ?_, by simp⟩
    rw [← hlines _ h]
    refine congrArg _ ?_
    rw [List.concat_eq_append] at *
    clear h
    induction init with
    | nil => simp [List.intercalate]
    | cons m ms ih =>
      have hne : ms ++ [l] ≠ [] := by simp
      obtain ⟨n, ns, hn⟩ := List.exists_cons_of_ne_nil hne
      rw [List.cons_append, List.map_cons, List.flatten_cons, List.append_assoc, ← ih, hn]
      simp [List.intercalate]

theorem ended_setting (key value : Text) : Ended (setting key value) := by
  rw [setting_eq]
  exact ended_concat.mpr (by decide)

theorem splitlines_setting {key value : Text} (hkey : IsWord key) (hvalue : IsWord value) :
    splitlines (setting key value) = [setting key value] := by
  rw [setting_eq]
  exact splitlines_of_isLine (isLine_newline (setting_unbroken hkey hvalue)).1

theorem isHeader_copied {line : Text} (h : isObfuscation line = true) : isHeader (line ++ ['\n']) = false := by
  obtain ⟨key, hkey, rest, -, hrest, -⟩ := isObfuscation_iff.mp h
  obtain ⟨k, ks, rfl⟩ := List.exists_cons_of_ne_nil (obfuscationKey_word hkey).1.1
  have hhead : ∀ key ∈ obfuscationKeys, key.head? ≠ some '[' := by decide
  rw [afterPrefix_eq_some hrest, isHeader_newline]
  exact isHeader_of_head ((obfuscationKey_word hkey).1.2 k List.mem_cons_self)
    (fun hk => hhead _ hkey (by rw [hk]; rfl)) _

/-- A section alone in front of another one. -/
theorem interfaceLines_append {lines : List Text} {u v : Text} (hu : Ended u) (hv : StartsWithHeader v)
    (hlines : splitlines u = (interfaceHeader ++ ['\n']) :: lines) (hplain : ∀ l ∈ lines, isHeader l = false) :
    interfaceLines (u ++ v) = some (lines.map rstripNl) := by
  have hstrip : strip (interfaceHeader ++ ['\n']) = interfaceHeader := by decide
  have hheaded : ∀ s ∈ [Section.mk (some interfaceHeader) ((interfaceHeader ++ ['\n']) :: lines)], s.Headed := by
    intro s hs
    rw [List.mem_singleton.mp hs]
    exact ⟨_, lines, by rw [hstrip], by decide, hplain⟩
  have hsections : splitSections u = [Section.mk (some interfaceHeader) ((interfaceHeader ++ ['\n']) :: lines)] := by
    have hempty : ∀ l ∈ ([] : List Text), isHeader l = false := fun l hl => absurd hl List.not_mem_nil
    have h := sectionsOf_eq hempty hheaded
    rw [splitSections, hlines]
    simpa [preamble] using h
  rw [interfaceLines, splitSections_append hu hv, hsections]
  rfl

/-- The first part of a client's config, up to its `[Peer]`. -/
def interfaceText (cfg : Settings) (priv ips : Text) (copied : List Text) : Text :=
  interfaceHeader ++ ['\n'] ++ (setting "PrivateKey".toList priv ++ (setting "Address".toList ips ++
    (setting "DNS".toList cfg.clientDns ++ (setting "MTU".toList cfg.clientMtu ++
      (List.intercalate ['\n'] copied ++ ['\n', '\n'])))))

theorem interface_line : "[Interface]\n".toList = interfaceHeader ++ ['\n'] := by decide

theorem peer_lines : "\n\n[Peer]\n".toList = ['\n', '\n'] ++ (peerHeader ++ ['\n']) := by decide

theorem clientConfig_eq (cfg : Settings) (iface : List Text) (priv psk serverPub endpoint ips : Text) :
    ∃ v, clientConfig cfg iface priv psk serverPub endpoint ips =
      interfaceText cfg priv ips ((iface.map strip).filter isObfuscation) ++ (peerHeader ++ ['\n'] ++ v) := by
  refine ⟨setting publicKey serverPub ++ setting presharedKey psk ++ setting allowedIpsKey cfg.clientAllowedIps ++
    setting "Endpoint".toList endpoint ++ setting "PersistentKeepalive".toList cfg.persistentKeepalive, ?_⟩
  unfold clientConfig interfaceText
  rw [interface_line, peer_lines]
  simp only [List.append_assoc]

theorem ended_interfaceText (cfg : Settings) (priv ips : Text) (copied : List Text) :
    Ended (interfaceText cfg priv ips copied) := by
  have hjoin : List.intercalate ['\n'] copied ++ ['\n', '\n'] = List.intercalate ['\n'] copied ++ ['\n'] ++
    ['\n'] := by simp
  have hbody : Ended (List.intercalate ['\n'] copied ++ ['\n', '\n']) := by
    rw [hjoin]
    exact ended_concat.mpr (by decide)
  rw [interfaceText]
  apply (ended_concat.mpr (by decide)).append
  iterate 4 apply (ended_setting _ _).append
  exact hbody

theorem splitlines_interfaceText {priv ips : Text} {copied : List Text} (hpriv : IsWord priv) (hips : IsWord ips)
    (hcopied : ∀ l ∈ copied, ∀ c ∈ l, isBreak c = false) :
    ∃ blanks, splitlines (interfaceText cfg priv ips copied) =
        (interfaceHeader ++ ['\n']) ::
          ([setting "PrivateKey".toList priv, setting "Address".toList ips] ++ settingLines cfg ++
          copied.map (· ++ ['\n']) ++ blanks) ∧ ∀ l ∈ blanks, l = ['\n'] := by
  obtain ⟨blanks, hblanks, hblank⟩ := splitlines_intercalate hcopied
  have hheader : splitlines (interfaceHeader ++ ['\n']) = [interfaceHeader ++ ['\n']] := by decide
  refine ⟨blanks, ?_, hblank⟩
  rw [interfaceText, splitlines_append (ended_concat.mpr (by decide)), splitlines_append (ended_setting _ _),
    splitlines_append (ended_setting _ _), splitlines_append (ended_setting _ _), splitlines_append (ended_setting _ _),
    hblanks, hheader, splitlines_setting (by decide) hpriv, splitlines_setting (by decide) hips]
  simp only [settingLines, List.append_assoc, List.cons_append, List.nil_append]

/-- What a client's `[Interface]` holds besides the copied lines sets none of the keys. -/
theorem interfaceLines_clientConfig {priv psk serverPub endpoint ips : Text} (hcfg : cfg.WriteNone)
    (hpriv : IsWord priv)
    (hips : IsWord ips) (hiface : ∀ l ∈ iface, ∀ c ∈ strip l, isBreak c = false) :
    ∃ before after, interfaceLines (clientConfig cfg iface priv psk serverPub endpoint ips) =
        some (before ++ (iface.map strip).filter isObfuscation ++ after) ∧
      ∀ key ∈ obfuscationKeys, (∀ l ∈ before, lineValue key l = none) ∧ ∀ l ∈ after, lineValue key l = none := by
  obtain ⟨v, hconfig⟩ := clientConfig_eq cfg iface priv psk serverPub endpoint ips
  generalize hcopied : (iface.map strip).filter isObfuscation = copied at hconfig ⊢
  have hmem : ∀ l ∈ copied, isObfuscation l = true ∧ ∀ c ∈ l, isBreak c = false := by
    intro l hl
    rw [← hcopied] at hl
    obtain ⟨hl, hobfuscation⟩ := List.mem_filter.mp hl
    obtain ⟨m, hm, rfl⟩ := List.mem_map.mp hl
    exact ⟨hobfuscation, hiface m hm⟩
  obtain ⟨blanks, hlines, hblank⟩ := splitlines_interfaceText hpriv hips fun l hl => (hmem l hl).2
  have hstart : StartsWithHeader (peerHeader ++ ['\n'] ++ v) := by
    refine ⟨peerHeader ++ ['\n'], ?_, by decide⟩
    rw [splitlines_append (ended_concat.mpr (by decide))]
    rfl
  have hplain : ∀ l ∈ [setting "PrivateKey".toList priv, setting "Address".toList ips] ++ settingLines cfg ++
      copied.map (· ++ ['\n']) ++ blanks, isHeader l = false := by
    simp only [List.mem_append, List.mem_cons, List.not_mem_nil, or_false, List.mem_map]
    rintro l ((((rfl | rfl) | hl) | ⟨m, hm, rfl⟩) | hl)
    · exact isHeader_setting (by decide) (by decide) _
    · exact isHeader_setting (by decide) (by decide) _
    · exact (hcfg l hl).1
    · exact isHeader_copied (hmem m hm).1
    · rw [hblank l hl]
      decide
  have hsame : (copied.map (· ++ ['\n'])).map rstripNl = copied := by
    rw [List.map_map]
    refine (List.map_congr_left fun l hl => ?_).trans (List.map_id _)
    rw [Function.comp_apply, rstripNl_newline, id]
    refine List.rdropWhile_eq_self_iff.mpr fun hne => ?_
    have hlast := (hmem l hl).2 _ (List.getLast_mem hne)
    intro hc
    rw [beq_iff_eq.mp hc] at hlast
    exact absurd hlast (by decide)
  refine ⟨([setting "PrivateKey".toList priv, setting "Address".toList ips] ++ settingLines cfg).map rstripNl,
    blanks.map rstripNl, ?_, fun key hkey => ⟨fun l hl => ?_, fun l hl => ?_⟩⟩
  · rw [hconfig, interfaceLines_append (ended_interfaceText _ _ _ _) hstart hlines hplain, List.map_append,
      List.map_append, hsame]
  · obtain ⟨m, hm, rfl⟩ := List.mem_map.mp hl
    have hdiverge : ∀ key ∈ obfuscationKeys, ((key.zip "PrivateKey".toList).any fun p => p.1 != p.2) = true ∧
        ((key.zip "Address".toList).any fun p => p.1 != p.2) = true := by decide
    rw [lineValue_rstripNl (obfuscationKey_word hkey).1]
    simp only [List.mem_append, List.mem_cons, List.not_mem_nil, or_false] at hm
    rcases hm with (rfl | rfl) | hm
    · exact lineValue_setting_of_diverge (by decide) (hdiverge key hkey).1 _
    · exact lineValue_setting_of_diverge (by decide) (hdiverge key hkey).2 _
    · exact (hcfg m hm).2 key hkey
  · obtain ⟨m, hm, rfl⟩ := List.mem_map.mp hl
    rw [lineValue_rstripNl (obfuscationKey_word hkey).1, hblank m hm]
    exact lineValue_blank (obfuscationKey_word hkey).1

/-! ### A create -/

theorem unbroken_interfaceLines (h : interfaceLines conf = some iface) :
    ∀ l ∈ iface, ∀ c ∈ strip l, isBreak c = false := by
  obtain ⟨sec, hfind, rfl⟩ := Option.map_eq_some_iff.mp h
  intro l hl
  obtain ⟨m, hm, rfl⟩ := List.mem_map.mp hl
  have hline : m ∈ splitlines conf := by
    rw [splitlines_eq_sections]
    exact List.mem_flatMap.mpr ⟨sec, List.mem_of_find?_eq_some hfind, List.mem_of_mem_tail hm⟩
  rw [eq_rstripNl strip strip_newline]
  exact unbroken_strip ((areLines_splitlines conf).1 m hline)

/-- The client's config in a plan is made with the server's `[Interface]`. -/
theorem planCreate_clientConf {p : Plan} (h : planCreate cfg e s = .ok p) :
    ∃ conf iface serverPub endpoint ip, s.conf = some conf ∧ interfaceLines conf = some iface ∧
      p.clientConf = clientConfig cfg iface (strip e.genkey) e.newPsk serverPub endpoint
        (Ip.text ip ++ "/32".toList) := by
  simp only [planCreate, Except.bind_eq_ok, awgRun_eq_ok] at h
  obtain ⟨conf, hconf, ⟨iface, address, port, serverPriv⟩, hset, ip, -, priv, ⟨-, rfl⟩, pub, ⟨-, rfl⟩, psk, ⟨-, rfl⟩,
    serverPub, -, host, -, hp⟩ := h
  obtain rfl := Except.ok.inj hp
  refine ⟨conf, iface, serverPub, host ++ ':' :: port, ip, of_readConf hconf, ?_, rfl⟩
  unfold interfaceSettings at hset
  split at hset
  · cases hset
  · rename_i iface' hiface
    dsimp only at hset
    split at hset
    · obtain ⟨rfl, -⟩ := Prod.mk.inj (Except.ok.inj hset)
      exact hiface
    · cases hset

/-- A new client's config carries the server's obfuscation settings exactly if each of them is set
first in a line with only spaces in front of the `=` and a value behind it. -/
theorem carries_iff {id : Text} {r : PeerResult} (hcfg : cfg.WriteNone) (hkey : IsWord (strip e.genkey))
    (hnew : s.readClientFile label .conf = none) (hconf : s.conf = some conf)
    (hcreate : createPeer cfg e id label s = (.ok r, t)) :
    Carries conf r.config ↔ ∃ iface, interfaceLines conf = some iface ∧
      ∀ key ∈ obfuscationKeys, ∀ v, getValue iface key = some v → iface.findSome? (copiedValue key) = some v := by
  obtain ⟨-, ⟨text, hexists, -⟩ | ⟨p, -, hplan, -, rfl⟩⟩ := createPeer_done hcreate
  · rw [hnew] at hexists
    cases hexists
  obtain ⟨conf', iface, serverPub, endpoint, ip, hconf', hiface, hclient⟩ := planCreate_clientConf hplan
  obtain rfl : conf = conf' := Option.some.inj (hconf.symm.trans hconf')
  obtain ⟨before, after, hlines, hothers⟩ := interfaceLines_clientConfig
    hcfg hkey (isWord_allowedIps ip) (unbroken_interfaceLines hiface)
  have hvalue : ∀ key ∈ obfuscationKeys, getValue (before ++ (iface.map strip).filter isObfuscation ++ after) key =
      iface.findSome? (copiedValue key) := by
    intro key hkey
    obtain ⟨hbefore, hafter⟩ := hothers key hkey
    rw [← getValue_copied hkey, getValue, List.findSome?_append, List.findSome?_append,
      List.findSome?_eq_none_iff.mpr hbefore, List.findSome?_eq_none_iff.mpr hafter, Option.none_or, Option.or_none]
    rfl
  have hconfig : (peerResult label p.clientConf (some p.allowedIps) (some false)).config = p.clientConf := rfl
  rw [hconfig, hclient]
  constructor
  · rintro ⟨iface', clientIface, hiface', hclientIface, hsame⟩
    refine ⟨iface', hiface', fun key hkey v hv => ?_⟩
    obtain rfl := Option.some.inj (hiface.symm.trans hiface')
    obtain rfl := Option.some.inj (hlines.symm.trans hclientIface)
    rw [← hvalue key hkey, hsame key hkey, hv]
  · rintro ⟨iface', hiface', hcopied⟩
    obtain rfl := Option.some.inj (hiface.symm.trans hiface')
    refine ⟨iface, _, hiface, hlines, fun key hkey => ?_⟩
    rw [hvalue key hkey]
    cases hv : getValue iface key with
    | some v => exact hcopied key hkey v hv
    | none =>
      -- a line that is not read is not copied
      rw [List.findSome?_eq_none_iff]
      intro l hl
      cases hc : copiedValue key l with
      | none => rfl
      | some v =>
        have hread := copiedValue_eq_some hkey hc
        rw [List.findSome?_eq_none_iff.mp hv l hl] at hread
        cases hread

/-- A server whose `[Interface]` has that line. -/
def obfuscatedServer (line : Text) : Server :=
  { smallServer with conf := smallServer.conf.map (· ++ line ++ ['\n']) }

theorem carries_iff_spaces :
    ∃ r t conf, (obfuscatedServer "  Jc  = 5".toList).conf = some conf ∧
      createPeer smallSettings (smallEnv "a2V5".toList) smallId "a".toList
        (obfuscatedServer "  Jc  = 5".toList) = (.ok r, t) ∧
      Carries conf r.config := by
  obtain ⟨r, h⟩ := Cmd.exists_ok (c := createPeer smallSettings (smallEnv "a2V5".toList) smallId "a".toList)
    (s := obfuscatedServer "  Jc  = 5".toList) (by decide +kernel)
  refine ⟨r, _, _, rfl, h, (carries_iff (by decide +kernel) (by decide +kernel) rfl rfl h).mpr ⟨_, rfl, ?_⟩⟩
  decide +kernel

/-- A tab in front of the `=`: the server has the setting and its new client does not. -/
theorem not_carries_tab :
    ∃ (cfg : Settings) (e : Env) (s t : Server) (conf id label : Text) (r : PeerResult), cfg.WriteNone ∧
      s.clients = ∅ ∧ s.conf = some conf ∧ createPeer cfg e id label s = (.ok r, t) ∧
      (interfaceLines conf).bind (fun iface => getValue iface "Jc".toList) = some ['5'] ∧ ¬ Carries conf r.config := by
  obtain ⟨r, h⟩ := Cmd.exists_ok (c := createPeer smallSettings (smallEnv "a2V5".toList) smallId "a".toList)
    (s := obfuscatedServer "Jc\t= 5".toList) (by decide +kernel)
  refine ⟨_, _, _, _, _, _, _, r, by decide +kernel, rfl, rfl, h, by decide +kernel, ?_⟩
  rw [carries_iff (by decide +kernel) (by decide +kernel) rfl rfl h]
  rintro ⟨iface, hiface, hall⟩
  have hcopied := hall "Jc".toList (by decide) ['5']
  obtain rfl := Option.some.inj hiface
  revert hcopied
  decide +kernel

end AmneziaVpnBot.Vpnctl
