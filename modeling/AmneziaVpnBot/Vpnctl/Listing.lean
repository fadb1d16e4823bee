import AmneziaVpnBot.Vpnctl.Scan

/-! A server config in which every client's block lists one IPv4 address, and what the edits of
`vpnctl` and additions at its end make of it: the addresses in use are those of the blocks, and
the server's own interface stays as it is. -/

namespace AmneziaVpnBot.Vpnctl

open Text

/-- The one IPv4 address that the block lists. -/
def blockAddress (block : Text) : Option ℕ :=
  match blockValues block with
  | [value] => v4Of value
  | _ => none

/-- The interface of the first `Address` of the config. -/
def serverInterface (conf : Text) : Option Interface :=
  (interfaceLines conf).bind fun iface =>
    (getValue iface "Address".toList).bind fun address => parseInterface (strip ((address.splitOn ',').headD []))

def Interface.isV4 (i : Interface) : Bool :=
  match i.ip with
  | .v4 _ => true
  | .v6 _ => false

/-- Each block lists one IPv4 address, no other section lists any, and the server has one itself. -/
structure ConfOk (conf : Text) : Prop where
  tidy : Tidy conf
  interface : (serverInterface conf).any Interface.isV4 = true
  others : ∀ s ∈ splitSections conf, s.header ≠ some peerHeader → s.lines.filterMap (lineValue allowedIpsKey) = []
  listed : ∀ b ∈ blocks conf, (blockAddress b).isSome = true

/-- One `[Peer]` block with one IPv4 address. -/
structure SavedOk (block : Text) : Prop where
  peer : IsPeer block
  tidy : Tidy block
  listed : (blockAddress block).isSome = true

/-! ### Values of blocks -/

theorem blockAddress_rstripNl (block : Text) : blockAddress (rstripNl block) = blockAddress block := by
  rw [blockAddress, blockAddress, blockValues_rstripNl]

theorem blockAddress_newline (block : Text) : blockAddress (block ++ ['\n']) = blockAddress block := by
  rw [blockAddress, blockAddress, blockValues_newline]

theorem blockAddress_eq_some {block : Text} {n : ℕ} (h : blockAddress block = some n) :
    ∃ value, blockValues block = [value] ∧ v4Of value = some n := by
  unfold blockAddress at h
  split at h
  · rename_i value hvalue
    exact ⟨value, hvalue, h⟩
  · cases h

theorem blockValues_sections (conf : Text) :
    blockValues conf = (splitSections conf).flatMap fun s => s.lines.filterMap (lineValue allowedIpsKey) := by
  rw [blockValues, splitlines_eq_sections, List.filterMap_flatMap]

theorem blockValues_section {conf : Text} {s : Section} (h : s ∈ splitSections conf) :
    blockValues (rstripNl s.text) = s.lines.filterMap (lineValue allowedIpsKey) := by
  rw [blockValues_rstripNl, blockValues, splitlines_section h]

theorem bodies_eq (header conf : Text) :
    bodies header conf =
      ((splitSections conf).filter fun s => s.header == some header).map fun s => rstripNl s.text := by
  rw [bodies, contents]
  induction splitSections conf with
  | nil => rfl
  | cons s ss ih =>
    rw [List.filterMap_cons, List.filter_cons]
    cases hs : s.header with
    | none =>
      simp only [Section.content, hs, Option.map_none]
      rw [ih, if_neg (by simp)]
    | some h =>
      simp only [Section.content, hs, Option.map_some, List.filter_cons, decide_eq_true_eq]
      by_cases hh : h = header
      · rw [if_pos hh, if_pos (by simp [hh]), List.map_cons, List.map_cons, ih]
      · rw [if_neg hh, if_neg (by simp [hh]), ih]

/-- A filtered list gives the same values only if what is left out gives none. -/
theorem flatMap_filter_eq {α β : Type*} {p : α → Bool} {g : α → List β} {xs : List α} :
    xs.flatMap g = (xs.filter p).flatMap g ↔ ∀ x ∈ xs, p x = false → g x = [] := by
  induction xs with
  | nil => simp
  | cons x xs ih =>
    rw [List.flatMap_cons, List.filter_cons, List.forall_mem_cons]
    cases hp : p x with
    | true =>
      rw [if_pos rfl, List.flatMap_cons, List.append_right_inj, ih]
      exact (and_iff_right (by simp)).symm
    | false =>
      rw [if_neg (by simp), ← ih]
      constructor
      · intro h
        have hle : ((xs.filter p).flatMap g).length ≤ (xs.flatMap g).length := (List.filter_sublist.flatMap _).length_le
        have hlen := congrArg List.length h
        rw [List.length_append] at hlen
        have hnil : g x = [] := List.length_eq_zero_iff.mp (by omega)
        rw [hnil, List.nil_append] at h
        exact ⟨fun _ => hnil, h⟩
      · rintro ⟨hnil, h⟩
        rw [hnil rfl, List.nil_append, h]

/-- Only the blocks list addresses exactly if their values are those of the config. -/
theorem others_iff (conf : Text) :
    (∀ s ∈ splitSections conf, s.header ≠ some peerHeader → s.lines.filterMap (lineValue allowedIpsKey) = []) ↔
      blockValues conf = (blocks conf).flatMap blockValues := by
  have hblocks : (blocks conf).flatMap blockValues =
      ((splitSections conf).filter fun s => s.header == some peerHeader).flatMap fun s =>
        s.lines.filterMap (lineValue allowedIpsKey) := by
    rw [blocks, bodies_eq, List.flatMap_map]
    exact List.flatMap_congr fun s hs => blockValues_section (List.mem_of_mem_filter hs)
  rw [hblocks, blockValues_sections, flatMap_filter_eq]
  refine forall₂_congr fun s _ => ?_
  rw [beq_eq_false_iff_ne]

/-- The addresses in use in the config are those of its blocks. -/
theorem ConfOk.mem_addresses {conf : Text} (h : ConfOk conf) {a : Ip} :
    a ∈ addresses conf ↔ ∃ n, a = .v4 n ∧ some n ∈ (blocks conf).map blockAddress := by
  rw [h.tidy.mem_addresses, (others_iff conf).mp h.others]
  constructor
  · rintro ⟨value, hvalue, n, hn, rfl⟩
    obtain ⟨b, hb, hvalue⟩ := List.mem_flatMap.mp hvalue
    obtain ⟨m, hm⟩ := Option.isSome_iff_exists.mp (h.listed b hb)
    obtain ⟨value', hvalues, hv⟩ := blockAddress_eq_some hm
    rw [hvalues, List.mem_singleton] at hvalue
    subst hvalue
    obtain rfl : m = n := Option.some.inj (hv.symm.trans hn)
    exact ⟨m, rfl, List.mem_map.mpr ⟨b, hb, hm⟩⟩
  · rintro ⟨n, rfl, hn⟩
    obtain ⟨b, hb, hbn⟩ := List.mem_map.mp hn
    obtain ⟨value, hvalues, hv⟩ := blockAddress_eq_some hbn
    exact ⟨value, List.mem_flatMap.mpr ⟨b, hb, by simp [hvalues]⟩, n, hv, rfl⟩

theorem SavedOk.mem_addresses {block : Text} (h : SavedOk block) {a : Ip} :
    a ∈ addresses block ↔ ∃ n, a = .v4 n ∧ blockAddress block = some n := by
  obtain ⟨m, hm⟩ := Option.isSome_iff_exists.mp h.listed
  obtain ⟨value, hvalues, hv⟩ := blockAddress_eq_some hm
  rw [h.tidy.mem_addresses, hvalues, hm]
  simp only [List.mem_singleton, exists_eq_left, hv, Option.some.injEq]
  constructor
  · rintro ⟨n, hn, ha⟩
    exact ⟨n, ha, hn⟩
  · rintro ⟨n, ha, hn⟩
    exact ⟨n, hn, ha⟩

/-! ### The server's interface -/

theorem dropWhile_of_isHeader {line : Text} (h : isHeader line = true) :
    ∃ rest, line.dropWhile isSpace = '[' :: rest := by
  unfold isHeader at h
  split at h
  · rename_i rest hstrip
    have hprefix : strip line <+: line.dropWhile isSpace := List.rdropWhile_prefix _ _
    rw [hstrip] at hprefix
    obtain ⟨more, hmore⟩ := hprefix
    exact ⟨rest ++ more, hmore.symm⟩
  · cases h

theorem lineValue_header {key line : Text} (hkey : IsWord key)
    (hhead : key.head? ≠ some '[') (h : isHeader line = true) :
    lineValue key line = none := by
  obtain ⟨rest, hrest⟩ := dropWhile_of_isHeader h
  obtain ⟨k, ks, rfl⟩ := List.exists_cons_of_ne_nil hkey.1
  have hk : k ≠ '[' := fun he => hhead (by rw [he]; rfl)
  rw [lineValue, matchKey, hrest, afterPrefix, if_neg hk]
  rfl

/-- The settings of the server are those of its section's body. -/
theorem interface_value {key : Text} (hkey : IsWord key) (hhead : key.head? ≠ some '[') (conf : Text) :
    (interfaceLines conf).bind (getValue · key) = (bodies interfaceHeader conf).head?.bind (blockValue key) := by
  rw [interfaceLines, bodies_eq, List.head?_map, List.head?_filter, Option.bind_map, Option.bind_map]
  cases hfind : (splitSections conf).find? fun s => s.header == some interfaceHeader with
  | none => rfl
  | some s =>
    have hmem := List.mem_of_find?_eq_some hfind
    have hheader := List.find?_some hfind
    simp only [beq_iff_eq] at hheader
    obtain ⟨htext, hheaded⟩ := mem_splitSections hmem
    obtain ⟨⟨line, rest, hs, hline, -⟩, -⟩ := hheaded (by simp [hheader])
    simp only [Option.bind_some, Function.comp_apply]
    rw [blockValue_rstripNl hkey, blockValue, htext, hs, List.tail_cons, getValue, getValue, List.findSome?_cons,
      lineValue_header hkey hhead hline, List.findSome?_map]
    exact congrArg (fun f => List.findSome? f rest) (funext fun l => lineValue_rstripNl hkey l)

theorem serverInterface_eq (conf : Text) :
    serverInterface conf = ((bodies interfaceHeader conf).head?.bind (blockValue "Address".toList)).bind fun address =>
      parseInterface (strip ((address.splitOn ',').headD [])) := by
  rw [← interface_value (by decide) (by decide), Option.bind_assoc]
  rfl

variable {cfg : Settings} {conf : Text}

theorem exists_settings : (∃ settings, interfaceSettings cfg conf = .ok settings) ↔
    ((interfaceLines conf).bind (getValue · "Address".toList)).isSome = true ∧
      (cfg.endpointPort = [] → ((interfaceLines conf).bind (getValue · "ListenPort".toList)).isSome = true) ∧
      ((interfaceLines conf).bind (getValue · "PrivateKey".toList)).isSome = true := by
  unfold interfaceSettings
  cases interfaceLines conf with
  | none => exact iff_of_false (fun ⟨_, h⟩ => by cases h) fun h => by cases h.1
  | some iface =>
    simp only [Option.bind_some]
    generalize getValue iface "Address".toList = address
    generalize getValue iface "ListenPort".toList = listenPort
    generalize getValue iface "PrivateKey".toList = serverPriv
    by_cases hport : cfg.endpointPort = []
    · rw [if_pos hport]
      cases address <;> cases listenPort <;> cases serverPriv <;> simp [hport]
    · rw [if_neg hport]
      cases address <;> cases serverPriv <;> simp [hport]

/-- The settings a create reads are in the server's own section. -/
theorem exists_settings_of_bodies {conf' : Text} (h : bodies interfaceHeader conf' = bodies interfaceHeader conf)
    (hset : ∃ settings, interfaceSettings cfg conf = .ok settings) :
    ∃ settings, interfaceSettings cfg conf' = .ok settings := by
  rw [exists_settings, interface_value (by decide) (by decide), interface_value (by decide) (by decide),
    interface_value (by decide) (by decide)] at hset ⊢
  rwa [h]

/-! ### Edits -/

theorem serverInterface_withoutPeer (conf name : Text) :
    serverInterface (withoutPeer conf name) = serverInterface conf := by
  rw [serverInterface_eq, serverInterface_eq, bodies_withoutPeer_of_ne (by decide)]

theorem ConfOk.withoutPeer {conf : Text} (h : ConfOk conf) (name : Text) : ConfOk (withoutPeer conf name) where
  tidy := h.tidy.withoutPeer name
  interface := by
    rw [serverInterface_withoutPeer]
    exact h.interface
  others s hs := by
    rw [splitSections_withoutPeer] at hs
    exact h.others s (List.mem_of_mem_filter hs)
  listed b hb := by
    rw [blocks_withoutPeer] at hb
    exact h.listed b (List.mem_of_mem_filter hb)

/-- `u` is the config up to newlines at its end, and `block` comes after it. -/
structure Appends (conf u block : Text) : Prop where
  same : rstripNl u = rstripNl conf
  ended : Ended u
  block : SavedOk block

theorem Appends.contents {conf u block : Text} (h : Appends conf u block) :
    contents (u ++ block) = contents conf ++ [(peerHeader, rstripNl block)] := by
  have hold : Vpnctl.contents u = Vpnctl.contents conf := by rw [← contents_rstripNl u, h.same, contents_rstripNl]
  rw [Vpnctl.contents, splitSections_append h.ended h.block.peer.1, List.filterMap_append, ← Vpnctl.contents,
    ← Vpnctl.contents, hold, h.block.peer.2]

theorem Appends.blocks {conf u block : Text} (h : Appends conf u block) :
    blocks (u ++ block) = blocks conf ++ [rstripNl block] := by
  simp [Vpnctl.blocks, bodies, h.contents, List.filter_append]

theorem Appends.bodies {conf u block : Text} (h : Appends conf u block) :
    bodies interfaceHeader (u ++ block) = bodies interfaceHeader conf := by
  simp [Vpnctl.bodies, h.contents, List.filter_append, show peerHeader ≠ interfaceHeader by decide]

theorem Appends.serverInterface {conf u block : Text} (h : Appends conf u block) :
    serverInterface (u ++ block) = serverInterface conf := by
  rw [serverInterface_eq, serverInterface_eq, h.bodies]

theorem Appends.confOk {conf u block : Text} (h : Appends conf u block) (hconf : ConfOk conf) :
    ConfOk (u ++ block) where
  tidy := by
    refine .append h.ended ?_ h.block.tidy
    rw [← tidy_rstripNl, h.same, tidy_rstripNl]
    exact hconf.tidy
  interface := by
    rw [h.serverInterface]
    exact hconf.interface
  others := by
    have hold : blockValues u = blockValues conf := by rw [← blockValues_rstripNl, h.same, blockValues_rstripNl]
    rw [others_iff, blockValues_append h.ended, h.blocks, List.flatMap_append, hold, (others_iff conf).mp hconf.others]
    simp [blockValues_rstripNl]
  listed := by
    rw [h.blocks, List.forall_mem_append]
    refine ⟨hconf.listed, ?_⟩
    rw [List.forall_mem_singleton, blockAddress_rstripNl]
    exact h.block.listed

theorem SavedOk.appends {block : Text} (h : SavedOk block) (conf : Text) :
    Appends conf (rstripNl conf ++ "\n\n".toList) block where
  same := by
    have hadd : rstripNl conf ++ "\n\n".toList = rstripNl conf ++ ['\n'] ++ ['\n'] := by simp
    rw [hadd, rstripNl_newline, rstripNl_newline, rstripNl_idem]
  ended := by
    have hadd : rstripNl conf ++ "\n\n".toList = rstripNl conf ++ ['\n'] ++ ['\n'] := by simp
    rw [hadd]
    exact ended_concat.mpr (by decide)
  block := h

/-- A block that was in the config is fit to be saved, with a newline at its end. -/
theorem ConfOk.savedOk {conf : Text} (h : ConfOk conf) {s : Section} (hs : s ∈ splitSections conf)
    (hheader : s.header = some peerHeader) : SavedOk (rstripNl s.text ++ ['\n']) where
  peer := by
    rw [isPeer_newline]
    exact (isPeer_of_mem_blocks (mem_blocks.mpr ⟨s, hs, hheader, rfl⟩)).1
  tidy := by
    rw [tidy_newline, tidy_rstripNl]
    exact h.tidy.section hs
  listed := by
    rw [blockAddress_newline]
    exact h.listed _ (mem_blocks.mpr ⟨s, hs, hheader, rfl⟩)

end AmneziaVpnBot.Vpnctl
