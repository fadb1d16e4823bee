import AmneziaVpnBot.Vpnctl.Again
import AmneziaVpnBot.Vpnctl.Listing
import AmneziaVpnBot.Vpnctl.Success
import Mathlib.Order.Bounds.Basic

/-! The address a new client gets: the least host of the server's network that neither the
server nor a block nor a saved block has. The block that is written for it lists that address
and no other. -/

namespace AmneziaVpnBot.Vpnctl

open Text

/-! ### Host addresses -/

theorem parseDecimal_le {bound n : ℕ} {t : Text} (h : parseDecimal bound t = some n) : n ≤ bound := by
  unfold parseDecimal at h
  split_ifs at h with hd
  rw [← Option.some.inj h]
  exact hd.2.2

theorem parseOctet_le {t : Text} {n : ℕ} (h : parseOctet t = some n) : n ≤ 255 := by
  unfold parseOctet at h
  split_ifs at h
  exact parseDecimal_le h

theorem parseOctets_le {parts : List Text} {ns : List ℕ} (h : parts.mapM parseOctet = some ns) : ∀ n ∈ ns, n ≤ 255 := by
  induction parts generalizing ns with
  | nil =>
    obtain rfl : [] = ns := Option.some.inj h
    simp
  | cons part parts ih =>
    rw [List.mapM_cons, Option.bind_eq_bind, Option.bind_eq_some_iff] at h
    obtain ⟨n, hn, h⟩ := h
    obtain ⟨ns', hns, h⟩ := Option.bind_eq_some_iff.mp h
    rw [← Option.some.inj h, List.forall_mem_cons]
    exact ⟨parseOctet_le hn, ih hns⟩

theorem parseV4_lt {t : Text} {n : ℕ} (h : parseV4 t = some n) : n < 2 ^ 32 := by
  unfold parseV4 at h
  split at h
  · rename_i a b c d hparts
    have hle := parseOctets_le hparts
    simp only [List.forall_mem_cons] at hle
    obtain ⟨ha, hb, hc, hd, -⟩ := hle
    rw [← Option.some.inj h]
    omega
  · cases h

theorem parseV4Mask_le {t : Text} {p : ℕ} (h : parseV4Mask t = some p) : p ≤ 32 := by
  have hmask : ∀ n, maskLength n = some p → p ≤ 32 := by
    intro n hn
    have := List.mem_range.mp (List.mem_of_find?_eq_some hn)
    omega
  unfold parseV4Mask at h
  rcases Option.orElse_eq_some _ _ _ |>.mp h with h | ⟨-, h⟩
  · exact parseDecimal_le h
  · obtain ⟨n, -, h⟩ := Option.bind_eq_some_iff.mp h
    rcases Option.orElse_eq_some _ _ _ |>.mp h with h | ⟨-, h⟩
    · exact hmask _ h
    · exact hmask _ h

theorem parseInterface_v4 {t : Text} {n p : ℕ} (h : parseInterface t = some ⟨.v4 n, p⟩) : n < 2 ^ 32 ∧ p ≤ 32 := by
  unfold parseInterface at h
  split at h
  · rcases Option.orElse_eq_some _ _ _ |>.mp h with h | ⟨-, h⟩
    · obtain ⟨m, hm, heq⟩ := Option.map_eq_some_iff.mp h
      cases heq
      exact ⟨parseV4_lt hm, le_rfl⟩
    · obtain ⟨m, -, heq⟩ := Option.map_eq_some_iff.mp h
      cases heq
  · rcases Option.orElse_eq_some _ _ _ |>.mp h with h | ⟨-, h⟩
    · obtain ⟨m, hm, h⟩ := Option.bind_eq_some_iff.mp h
      obtain ⟨q, hq, heq⟩ := Option.map_eq_some_iff.mp h
      cases heq
      exact ⟨parseV4_lt hm, parseV4Mask_le hq⟩
    · obtain ⟨m, -, h⟩ := Option.bind_eq_some_iff.mp h
      obtain ⟨q, -, heq⟩ := Option.map_eq_some_iff.mp h
      cases heq
  · cases h

/-- The hosts of an IPv4 network are IPv4 addresses. -/
theorem Interface.host_lt {i : Interface} {m n : ℕ} (hip : i.ip = .v4 m) (hm : m < 2 ^ 32) (hlen : i.prefixLen ≤ 32)
    (h : i.IsHost n) : n < 2 ^ 32 := by
  have hend : i.network + 2 ^ (32 - i.prefixLen) ≤ 2 ^ 32 := by
    have hsplit : 2 ^ 32 = 2 ^ i.prefixLen * 2 ^ (32 - i.prefixLen) := by rw [← pow_add, Nat.add_sub_cancel' hlen]
    have hquot : m / 2 ^ (32 - i.prefixLen) < 2 ^ i.prefixLen := Nat.div_lt_of_lt_mul (by rwa [mul_comm, ← hsplit])
    rw [Interface.network, hip, hsplit]
    simp only [Ip.value, Ip.width]
    rw [← Nat.succ_mul]
    exact Nat.mul_le_mul_right _ hquot
  have hpos : 0 < 2 ^ (32 - i.prefixLen) := Nat.two_pow_pos _
  have hhosts : i.hosts = if 2 ^ (32 - i.prefixLen) ≤ 2 then (i.network, 2 ^ (32 - i.prefixLen))
      else (i.network + 1, 2 ^ (32 - i.prefixLen) - 2) := by
    rw [hosts, hip]
    rfl
  rw [IsHost, hhosts] at h
  by_cases hsize : 2 ^ (32 - i.prefixLen) ≤ 2
  · rw [if_pos hsize] at h
    exact h.2.trans_le hend
  · rw [if_neg hsize] at h
    obtain ⟨-, hlt⟩ := h
    omega

/-! ### New blocks -/

/-- What is accepted as a name is an identifier, or one with a newline after it. -/
theorem exists_identifier {field value : Text} (h : validateIdentifier field value = .ok value) :
    ∃ word, isIdentifier word = true ∧ (value = word ∨ value = word ++ ['\n']) := by
  unfold validateIdentifier at h
  split_ifs at h with hword
  refine ⟨beforeNewline value, hword, ?_⟩
  unfold beforeNewline
  split_ifs with hlast
  · obtain ⟨init, rfl⟩ := List.getLast?_eq_some_iff.mp hlast
    exact .inr (by rw [List.dropLast_concat])
  · exact .inl rfl

/-- A line of a block below its header. -/
structure BlockLine (l : Text) : Prop where
  ended : ∃ body, l = body ++ ['\n'] ∧ ∀ c ∈ body, isBreak c = false
  plain : isHeader l = false
  complete : isComplete l = true

theorem blockLine_setting {key value : Text} (hkey : IsWord key) (hhead : key.head? ≠ some '[') (hvalue : IsWord value)
    (h : isComplete (setting key value) = true) : BlockLine (setting key value) where
  ended := ⟨_, setting_eq _ _, setting_unbroken hkey hvalue⟩
  plain := isHeader_setting hkey hhead value
  complete := h

/-- Another setting than `AllowedIPs` does not break off. -/
theorem isComplete_setting {key : Text} (hkey : IsWord key) (h : (allowedIpsKey.zip key).any fun p => p.1 != p.2)
    (value : Text) : isComplete (setting key value) = true := by
  rw [isComplete, setting, List.append_assoc, List.append_assoc, hkey.dropWhile, afterPrefix_of_diverge h]
  rfl

theorem isComplete_allowedIps {value : Text} (h : IsWord value) : isComplete (setting allowedIpsKey value) = true := by
  have hkey : IsWord allowedIpsKey := by decide
  have hvalue : strip (' ' :: value) ≠ [] := by
    rw [show ' ' :: value = [' '] ++ value from rfl, strip_pad (by decide), h.strip]
    exact h.1
  have hrest : strip (" = ".toList ++ value) ≠ [] := by
    rw [Ne, strip_eq_nil]
    intro hall
    exact absurd (hall '=' (by simp)) (by decide)
  rw [setting_eq, isComplete_newline, isComplete, hkey.dropWhile, afterPrefix_self, Option.all_some, Bool.and_eq_true,
    Bool.not_eq_true', List.isEmpty_eq_false_iff]
  refine ⟨hrest, ?_⟩
  change (!(strip (' ' :: value)).isEmpty) = true
  rw [Bool.not_eq_true', List.isEmpty_eq_false_iff]
  exact hvalue

/-- A block made of such lines, one of which lists an address. -/
theorem savedOk_of_lines {ls : List Text} {value : Text} {n : ℕ} (hls : ∀ l ∈ ls, BlockLine l)
    (hvalue : ls.filterMap (lineValue allowedIpsKey) = [value]) (hn : v4Of value = some n) :
    SavedOk ((peerHeader ++ ['\n']) :: ls).flatten ∧ blockAddress ((peerHeader ++ ['\n']) :: ls).flatten = some n := by
  have hends : ∀ l ∈ (peerHeader ++ ['\n']) :: ls, IsLine l ∧ Ended l ∧ Plain l := by
    have hended : ∀ l ∈ (peerHeader ++ ['\n']) :: ls, ∃ body, l = body ++ ['\n'] ∧ ∀ c ∈ body, isBreak c = false :=
      List.forall_mem_cons.mpr ⟨⟨peerHeader, rfl, by decide⟩, fun l hl => (hls l hl).ended⟩
    intro l hl
    obtain ⟨body, rfl, hbody⟩ := hended l hl
    have hplain : Plain body := fun c hc hb => by simp [hbody c hc] at hb
    exact ⟨(isLine_newline hbody).1, (isLine_newline hbody).2, (plain_newline body).mpr hplain⟩
  have hlines : splitlines ((peerHeader ++ ['\n']) :: ls).flatten = (peerHeader ++ ['\n']) :: ls := by
    refine splitlines_flatten ⟨fun l hl => (hends l hl).1, ?_⟩
    exact List.Pairwise.imp_of_mem (R := fun _ _ => True) (fun hl _ _ => (hends _ hl).2.1)
      (List.pairwise_of_forall fun _ _ => trivial)
  have hheaded : Section.Headed ⟨some peerHeader, (peerHeader ++ ['\n']) :: ls⟩ := by
    have hstrip : strip (peerHeader ++ ['\n']) = peerHeader := by decide
    exact ⟨peerHeader ++ ['\n'], ls, by rw [hstrip], by decide, fun l hl => (hls l hl).plain⟩
  have hsections : splitSections ((peerHeader ++ ['\n']) :: ls).flatten =
    [⟨some peerHeader, (peerHeader ++ ['\n']) :: ls⟩] := by
    have h : sectionsOf ([] ++ [⟨some peerHeader, (peerHeader ++ ['\n']) :: ls⟩].flatMap Section.lines) =
        preamble [] ++ [⟨some peerHeader, (peerHeader ++ ['\n']) :: ls⟩] :=
        sectionsOf_eq (by simp) (by simpa using hheaded)
    rw [splitSections, hlines]
    simpa [preamble] using h
  have hvalues : blockValues ((peerHeader ++ ['\n']) :: ls).flatten = [value] := by
    rw [blockValues, hlines, List.filterMap_cons]
    exact hvalue
  have haddress : blockAddress ((peerHeader ++ ['\n']) :: ls).flatten = some n := by
    rw [blockAddress, hvalues]
    exact hn
  refine ⟨⟨⟨⟨peerHeader ++ ['\n'], by rw [hlines]; rfl, by decide⟩, ?_⟩, ⟨?_, ?_, ?_⟩, by rw [haddress]; rfl⟩, haddress⟩
  · rw [contents, hsections]
    rfl
  · intro c hc
    obtain ⟨l, hl, hc⟩ := List.mem_flatten.mp hc
    exact (hends l hl).2.2 c hc
  · rw [hlines, List.forall_mem_cons]
    exact ⟨by decide, fun l hl => (hls l hl).complete⟩
  · rw [hvalues, List.forall_mem_singleton, hn]
    rfl

theorem v4Of_v4Text {n : ℕ} (h : n < 2 ^ 32) : v4Of (v4Text n ++ "/32".toList) = some n := by
  have hword : IsWord (v4Text n ++ "/32".toList) := isWord_allowedIps (.v4 n)
  have hcomma : ',' ∉ v4Text n ++ "/32".toList := by
    have hmask : ',' ∉ "/32".toList := by decide
    rw [List.mem_append, not_or]
    refine ⟨fun hc => ?_, hmask⟩
    have := isAddressChar_of_mem_text (show _ ∈ (Ip.v4 n).text from hc)
    revert this
    decide
  rw [v4Of, if_neg hcomma, hword.strip, parseInterface_v4Text h]
  rfl

/-- The lines of a block below its header: the name, with a blank line where it ends in a newline, and the settings. -/
theorem peerBlock_eq_lines {field name : Text} (hname : validateIdentifier field name = .ok name) (pub psk ips : Text) :
    ∃ (word : Text) (blank : List Text), IsWord word ∧ (∀ l ∈ blank, l = ['\n']) ∧
      peerBlock name pub psk ips = ((peerHeader ++ ['\n']) :: ((("# ".toList ++ word) ++ ['\n']) :: blank ++
        [setting publicKey pub, setting presharedKey psk, setting allowedIpsKey ips])).flatten := by
  obtain ⟨word, hword, rfl | rfl⟩ := exists_identifier hname
  · refine ⟨name, [], isWord_of_isIdentifier hword, by simp, ?_⟩
    unfold peerBlock
    simp only [List.flatten_cons, List.flatten_nil, List.append_nil, List.append_assoc, List.cons_append,
      List.nil_append]
    rfl
  · refine ⟨word, [['\n']], isWord_of_isIdentifier hword, by simp, ?_⟩
    unfold peerBlock
    simp only [List.flatten_cons, List.flatten_nil, List.append_nil, List.append_assoc, List.cons_append,
      List.nil_append]
    rfl

/-- The block of a new client is fit to be saved, and lists the address. -/
theorem savedOk_peerBlock {field name pub psk : Text} {n : ℕ} (hname : validateIdentifier field name = .ok name)
    (hpub : IsWord pub) (hpsk : IsWord psk) (hn : n < 2 ^ 32) :
    SavedOk (peerBlock name pub psk (v4Text n ++ "/32".toList)) ∧
      blockAddress (peerBlock name pub psk (v4Text n ++ "/32".toList)) = some n := by
  obtain ⟨word, blank, hword, hblank, hblock⟩ := peerBlock_eq_lines hname pub psk (v4Text n ++ "/32".toList)
  have hips : IsWord (v4Text n ++ "/32".toList) := isWord_allowedIps (.v4 n)
  have hcomment : BlockLine (("# ".toList ++ word) ++ ['\n']) := by
    have hhash : ∀ c ∈ "# ".toList, isBreak c = false := by decide
    refine ⟨⟨_, rfl, fun c hc => ?_⟩, isHeader_of_head (by decide) (by decide) _, rfl⟩
    exact (List.mem_append.mp hc).elim (hhash c) (hword.unbroken c)
  have hblankLine : BlockLine ['\n'] := ⟨⟨[], rfl, by simp⟩, by decide, by decide⟩
  have hsettings : ∀ l ∈ [setting publicKey pub, setting presharedKey psk,
    setting allowedIpsKey (v4Text n ++ "/32".toList)],
      BlockLine l := by
    simp only [List.forall_mem_cons, List.not_mem_nil, false_implies, implies_true, and_true]
    exact ⟨blockLine_setting (by decide) (by decide) hpub (isComplete_setting (by decide) (by decide) _),
      blockLine_setting (by decide) (by decide) hpsk (isComplete_setting (by decide) (by decide) _),
      blockLine_setting (by decide) (by decide) hips (isComplete_allowedIps hips)⟩
  have hrest : ((("# ".toList ++ word) ++ ['\n']) :: blank).filterMap (lineValue allowedIpsKey) = [] := by
    have hnone : ∀ l ∈ blank, lineValue allowedIpsKey l = none := fun l hl => by rw [hblank l hl]; decide
    rw [List.filterMap_eq_nil_iff, List.forall_mem_cons]
    exact ⟨rfl, hnone⟩
  have hvalues : [setting publicKey pub, setting presharedKey psk,
    setting allowedIpsKey (v4Text n ++ "/32".toList)].filterMap
      (lineValue allowedIpsKey) = [v4Text n ++ "/32".toList] := by
    have hpubNone : lineValue allowedIpsKey (setting publicKey pub) = none :=
      lineValue_setting_of_diverge (by decide) (by decide) _
    have hpskNone : lineValue allowedIpsKey (setting presharedKey psk) = none :=
      lineValue_setting_of_diverge (by decide) (by decide) _
    simp only [List.filterMap_cons, hpubNone, hpskNone, lineValue_setting (by decide : IsWord allowedIpsKey) hips]
    rfl
  rw [hblock]
  refine savedOk_of_lines ?_ ?_ (v4Of_v4Text hn)
  · rw [List.forall_mem_append, List.forall_mem_cons]
    exact ⟨⟨hcomment, fun l hl => hblank l hl ▸ hblankLine⟩, hsettings⟩
  · rw [List.filterMap_append, hvalues, hrest]
    rfl

/-! ### The least free address -/

/-- The addresses that the clients' blocks list. -/
def Server.blockAddresses (s : Server) : List ℕ := s.blocks.filterMap blockAddress

/-- A host of the network that neither the server nor a block nor a saved block has. -/
structure Server.Free (s : Server) (i : Interface) (n : ℕ) : Prop where
  host : i.IsHost n
  own : i.ip ≠ .v4 n
  listed : n ∉ s.blockAddresses
  saved : ∀ t ∈ s.savedTexts, blockAddress t ≠ some n

/-- The server's interface has an IPv4 address and what a create reads besides, and each block,
saved or not, lists one IPv4 address. -/
structure Server.Addressed (cfg : Settings) (s : Server) : Prop where
  conf : ∃ conf settings, s.conf = some conf ∧ ConfOk conf ∧ interfaceSettings cfg conf = .ok settings
  saved : ∀ t ∈ s.savedTexts, SavedOk t

variable {cfg : Settings} {s : Server} {conf : Text} {n : ℕ}

theorem mem_blockAddresses (hconf : s.conf = some conf) :
    n ∈ s.blockAddresses ↔ some n ∈ (blocks conf).map blockAddress := by
  rw [Server.blockAddresses, Server.blocks, hconf]
  simp

theorem mem_usedAddresses (hconf : s.conf = some conf) (hok : ConfOk conf) :
    .v4 n ∈ usedAddresses s conf false ↔ n ∈ s.blockAddresses := by
  rw [mem_blockAddresses hconf, usedAddresses, if_neg (by simp), List.flatMap_singleton, hok.mem_addresses]
  constructor
  · rintro ⟨m, hm, h⟩
    rwa [Ip.v4.inj hm]
  · exact fun h => ⟨n, rfl, h⟩

theorem mem_usedAddresses_saved (hs : s.Addressed cfg) (hconf : s.conf = some conf) (hok : ConfOk conf) :
    .v4 n ∈ usedAddresses s conf true ↔ n ∈ s.blockAddresses ∨ ∃ t ∈ s.savedTexts, blockAddress t = some n := by
  have hlisted := mem_usedAddresses (n := n) hconf hok
  rw [usedAddresses, if_neg (by simp), List.flatMap_singleton] at hlisted
  rw [usedAddresses, if_pos rfl, List.flatMap_cons, List.mem_append, hlisted, List.mem_flatMap]
  refine or_congr_right (exists_congr fun t => and_congr_right fun ht => ?_)
  rw [(hs.saved t ht).mem_addresses]
  constructor
  · rintro ⟨m, hm, h⟩
    rwa [Ip.v4.inj hm]
  · exact fun h => ⟨n, rfl, h⟩

/-- The search finds the least number that is free. -/
theorem firstFree_isLeast {used : ℕ → Bool} {start count a : ℕ} {P : ℕ → Prop}
    (hP : ∀ n, P n ↔ (start ≤ n ∧ n < start + count) ∧ used n = false) :
    firstFree used start count = some a ↔ IsLeast {n | P n} a := by
  rw [firstFree_eq_some]
  constructor
  · rintro ⟨hrange, hfree, hmin⟩
    refine ⟨(hP a).mpr ⟨hrange, hfree⟩, fun b hb => ?_⟩
    obtain ⟨hb, hbfree⟩ := (hP b).mp hb
    by_contra hlt
    have := hmin b hb.1 (not_le.mp hlt)
    rw [hbfree] at this
    cases this
  · rintro ⟨ha, hleast⟩
    obtain ⟨hrange, hfree⟩ := (hP a).mp ha
    refine ⟨hrange, hfree, fun b hb hlt => ?_⟩
    by_contra hused
    have hle : a ≤ b := hleast ((hP b).mpr ⟨⟨hb, hlt.trans hrange.2⟩, by simpa using hused⟩)
    omega

theorem firstFree_none {used : ℕ → Bool} {start count : ℕ} {P : ℕ → Prop}
    (hP : ∀ n, P n ↔ (start ≤ n ∧ n < start + count) ∧ used n = false) :
    firstFree used start count = none ↔ ∀ n, ¬ P n := by
  rw [firstFree_eq_none]
  refine forall_congr' fun n => ?_
  rw [hP, not_and, Bool.not_eq_false, and_imp]

theorem serverInterface_of_settings {iface : List Text} {address port serverPriv : Text}
    (h : interfaceSettings cfg conf = .ok (iface, address, port, serverPriv)) :
    serverInterface conf = parseInterface (strip ((address.splitOn ',').headD [])) := by
  unfold interfaceSettings at h
  split at h
  · cases h
  · rename_i lines hlines
    simp only at h
    split at h
    · rename_i haddress _ _
      cases h
      rw [serverInterface, hlines, Option.bind_some, haddress, Option.bind_some]
    · cases h

theorem isV4_iff {i : Interface} : i.isV4 = true ↔ ∃ m, i.ip = .v4 m := by
  unfold Interface.isV4
  cases i.ip <;> simp

theorem ConfOk.exists_interface (h : ConfOk conf) : ∃ i m, serverInterface conf = some i ∧ i.ip = .v4 m := by
  obtain ⟨i, hi, hv4⟩ := (Option.any_eq_true _ _).mp h.interface
  obtain ⟨m, hm⟩ := isV4_iff.mp hv4
  exact ⟨i, m, hi, hm⟩

theorem ConfOk.host_lt (h : ConfOk conf) {i : Interface} (hi : serverInterface conf = some i) (hhost : i.IsHost n) :
    n < 2 ^ 32 := by
  obtain ⟨i', m, hi', hm⟩ := h.exists_interface
  obtain rfl : i = i' := Option.some.inj (hi.symm.trans hi')
  obtain ⟨iface, -, hiface⟩ := Option.bind_eq_some_iff.mp hi
  obtain ⟨address, -, hparse⟩ := Option.bind_eq_some_iff.mp hiface
  obtain ⟨ip, len⟩ := i
  obtain rfl : ip = .v4 m := hm
  obtain ⟨hlt, hlen⟩ := parseInterface_v4 hparse
  exact Interface.host_lt rfl hlt hlen hhost

def subnetFull (i : Interface) : Error := .vpnctlError ("Subnet ".toList ++ i.networkText ++ " is full".toList)

/-- What `create-peer` takes is the least free address, and without one the subnet is full. -/
theorem freeAddress_iff (hs : s.Addressed cfg) (hconf : s.conf = some conf) (hok : ConfOk conf) {i : Interface}
    (hi : serverInterface conf = some i) {iface : List Text} {address port serverPriv : Text}
    (hset : interfaceSettings cfg conf = .ok (iface, address, port, serverPriv)) :
    (∀ ip, freeAddress s conf address = .ok ip ↔ ∃ n, ip = .v4 n ∧ IsLeast {n | s.Free i n} n) ∧
      (freeAddress s conf address = .error (subnetFull i) ↔ ∀ n, ¬ s.Free i n) := by
  obtain ⟨i', m, hi', hm⟩ := hok.exists_interface
  obtain rfl : i = i' := Option.some.inj (hi.symm.trans hi')
  have hfree : ∀ n, s.Free i n ↔ (i.hosts.1 ≤ n ∧ n < i.hosts.1 + i.hosts.2) ∧
      ((i.ip :: usedAddresses s conf true).contains (i.ip.with n)) = false := by
    intro n
    have hwith : i.ip.with n = .v4 n := by rw [hm]; rfl
    rw [hwith, ← Bool.not_eq_true, List.contains_iff_mem, List.mem_cons,
      mem_usedAddresses_saved hs hconf hok, not_or, not_or]
    constructor
    · exact fun h => ⟨h.host, Ne.symm h.own, h.listed, fun ⟨t, ht, hn⟩ => h.saved t ht hn⟩
    · exact fun ⟨hhost, hown, hlisted, hsaved⟩ => ⟨hhost, Ne.symm hown, hlisted, fun t ht hn => hsaved ⟨t, ht, hn⟩⟩
  rw [serverInterface_of_settings hset] at hi
  rw [← firstFree_none hfree, freeAddress, hi]
  simp only [← firstFree_isLeast hfree]
  generalize firstFree _ i.hosts.1 i.hosts.2 = first
  cases first with
  | none => exact ⟨by simp, iff_of_true rfl rfl⟩
  | some k => exact ⟨by simp [hm, Ip.with, eq_comm], by simp⟩

/-! ### Creating -/

variable {e : Env} {t : Server} {label : Text}

/-- Nothing fails, and the next keys are words. -/
structure Env.Works (e : Env) : Prop where
  ok : e.AllOk
  keys : e.WordKeys

/-- With the address at hand, the rest of the plan does not fail. -/
theorem planCreate_of_ok (he : e.AllOk) (hconf : s.conf = some conf) {iface : List Text}
    {address port serverPriv : Text}
    (hset : interfaceSettings cfg conf = .ok (iface, address, port, serverPriv))
    (hhost : ∃ host, endpointHost cfg e = .ok host) :
    (∀ ip, freeAddress s conf address = .ok ip → ∃ p, planCreate cfg e s = .ok p) ∧
      ∀ err, freeAddress s conf address = .error err → planCreate cfg e s = .error err := by
  obtain ⟨host, hhost⟩ := hhost
  constructor
  · intro ip hip
    simp only [planCreate, readConf_ok hconf, hset, hip, hhost, awgRun_ok (he.awg _), bind, Except.bind]
    exact ⟨_, rfl⟩
  · intro err herr
    simp only [planCreate, readConf_ok hconf, hset, herr, bind, Except.bind]

theorem createPeer_of_new {id : Text} (hid : validateUuid id = .ok ())
    (hlabel : validateIdentifier "label".toList label = .ok label)
    (hnew : s.readClientFile label .conf = none) :
    createPeer cfg e id label s = (Cmd.ofExcept (planCreate cfg e s) >>= applyPlan cfg e label) s := by
  rw [createPeer, hid, Cmd.ofExcept_ok_bind, hlabel, Cmd.ofExcept_ok_bind, Cmd.get_bind]
  simp only [hnew]

/-- What is written after the config adds its address. -/
theorem blockAddresses_append {before block : Text} (hconf : s.conf = some conf) (h : Appends conf before block)
    (ht : t.conf = some (before ++ block)) (hn : blockAddress block = some n) :
    t.blockAddresses = s.blockAddresses ++ [n] := by
  have hlast : [rstripNl block].filterMap blockAddress = [n] := by
    rw [List.filterMap_cons, blockAddress_rstripNl, hn]
    rfl
  rw [Server.blockAddresses, Server.blockAddresses, Server.blocks, Server.blocks, ht, hconf]
  change (blocks (before ++ block)).filterMap blockAddress = (blocks conf).filterMap blockAddress ++ [n]
  rw [h.blocks, List.filterMap_append, hlast]

/-- A plan for a new client writes its block after the config, with the least free address. -/
theorem planCreate_assigns (hs : s.Addressed cfg) (hkeys : e.WordKeys)
    (hlabel : validateIdentifier "label".toList label = .ok label)
    {p : Plan} (hplan : planCreate cfg e s = .ok p) :
    ∃ conf i n, s.conf = some conf ∧ serverInterface conf = some i ∧ IsLeast {n | s.Free i n} n ∧
      p.conf = conf ∧ p.allowedIps = v4Text n ++ "/32".toList ∧ SavedOk (peerBlock label p.pub p.psk p.allowedIps) ∧
      blockAddress (peerBlock label p.pub p.psk p.allowedIps) = some n := by
  obtain ⟨conf, iface, address, port, serverPriv, ip, hconf, hset, hip, hpub, hpsk, hips, hpconf⟩ :=
    planCreate_eq_ok hplan
  obtain ⟨conf', -, hconf', hok, -⟩ := hs.conf
  obtain rfl : conf = conf' := Option.some.inj (hconf.symm.trans hconf')
  obtain ⟨i, m, hi, hm⟩ := hok.exists_interface
  obtain ⟨n, rfl, hleast⟩ := ((freeAddress_iff hs hconf hok hi hset).1 ip).mp hip
  have hlt : n < 2 ^ 32 := hok.host_lt hi hleast.1.host
  have hblock := savedOk_peerBlock hlabel (hpub ▸ hkeys.pub) (hpsk ▸ hkeys.psk) hlt
  rw [show v4Text n ++ "/32".toList = p.allowedIps from hips.symm] at hblock
  exact ⟨conf, i, n, hconf, hi, hleast, hpconf, hips, hblock⟩

/-- A create for a new label assigns the least free address, and reports the subnet as full exactly if there is none. -/
theorem createPeer_address (hs : s.Addressed cfg) (he : e.Works)
    (hhost : ∃ host, endpointHost cfg e = .ok host) {id : Text}
    (hid : validateUuid id = .ok ()) (hlabel : validateIdentifier "label".toList label = .ok label)
    (hnew : s.readClientFile label .conf = none) (hconf : s.conf = some conf) {i : Interface}
    (hi : serverInterface conf = some i) :
    (∀ n, IsLeast {n | s.Free i n} n → ∃ r t, createPeer cfg e id label s = (.ok r, t) ∧
        r.address = some (v4Text n ++ "/32".toList) ∧ t.blockAddresses = s.blockAddresses ++ [n]) ∧
      (createPeer cfg e id label s = (.error (subnetFull i), s) ↔ ∀ n, ¬ s.Free i n) := by
  obtain ⟨conf', ⟨iface, address, port, serverPriv⟩, hconf', hok, hset⟩ := hs.conf
  obtain rfl : conf = conf' := Option.some.inj (hconf.symm.trans hconf')
  obtain ⟨hassign, hfull⟩ := freeAddress_iff hs hconf hok hi hset
  obtain ⟨hplan, herror⟩ := planCreate_of_ok he.ok hconf hset hhost
  rw [createPeer_of_new hid hlabel hnew]
  have hcreate : ∀ n, IsLeast {n | s.Free i n} n →
    ∃ r t, (Cmd.ofExcept (planCreate cfg e s) >>= applyPlan cfg e label) s =
      (.ok r, t) ∧ r.address = some (v4Text n ++ "/32".toList) ∧ t.blockAddresses = s.blockAddresses ++ [n] := by
    intro n hleast
    obtain ⟨p, hp⟩ := hplan (.v4 n) ((hassign _).mpr ⟨n, rfl, hleast⟩)
    obtain ⟨conf', i', n', hconf', hi', hleast', hpconf, hips, hblock, haddress⟩ :=
      planCreate_assigns hs he.keys hlabel hp
    obtain rfl : conf = conf' := Option.some.inj (hconf.symm.trans hconf')
    obtain rfl : i = i' := Option.some.inj (hi.symm.trans hi')
    obtain rfl : n = n' := hleast.unique hleast'
    rw [hp, Cmd.ofExcept_ok_bind, applyPlan_ok he.ok.files (he.ok.awg _)]
    refine ⟨_, _, rfl, by rw [← hips]; rfl, ?_⟩
    refine blockAddresses_append hconf (hblock.appends conf) ?_ haddress
    rw [← hpconf]
    rfl
  refine ⟨hcreate, fun h => ?_, fun hnone => ?_⟩
  · cases hfree : freeAddress s conf address with
    | ok ip =>
      obtain ⟨n, -, hleast⟩ := (hassign ip).mp hfree
      obtain ⟨r, t, hr, -⟩ := hcreate n hleast
      rw [h] at hr
      cases hr
    | error err =>
      rw [herror err hfree] at h
      obtain rfl : err = subnetFull i := Except.error.inj (Prod.mk.inj h).1
      exact hfull.mp hfree
  · rw [herror _ (hfull.mpr hnone)]
    rfl

end AmneziaVpnBot.Vpnctl
