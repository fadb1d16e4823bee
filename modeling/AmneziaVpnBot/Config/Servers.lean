import AmneziaVpnBot.Lib.Dict
import AmneziaVpnBot.Lib.Number
import Mathlib.Data.Char
import Mathlib.Data.List.Lex
import Mathlib.Data.List.Perm.Basic

/-! The VPN servers in the settings. A variable `VPN_SERVER_<NAME>_<FIELD>` joins two names that may have
underscores themselves, so it is cut at the first place after which a known field is left. Whatever the order
of the variables, they come apart into the servers they were written for. -/

namespace AmneziaVpnBot.Config

/-- What is relied on of `str.lower`. An underscore ends a word, so it changes the case of nothing around it. -/
structure StrLower where
  lower : Text → Text
  ascii : ∀ t, (∀ c ∈ t, c.val < 128) → lower t = t.map Char.toLower
  underscore : ∀ t u, lower (t ++ '_' :: u) = lower t ++ '_' :: lower u
  hyphen : ∀ t, '-' ∈ lower t → '-' ∈ t

/-! ### Fields -/

inductive ServerField
  | enabled
  | slug
  | countryCode
  | displayName
  | host
  | vpnctlPort
  | maxActiveSubscriptions
  deriving DecidableEq

def ServerField.all : List ServerField :=
  [.enabled, .slug, .countryCode, .displayName, .host, .vpnctlPort, .maxActiveSubscriptions]

/-- The words of its name. -/
def ServerField.words : ServerField → List String
  | .enabled => ["ENABLED"]
  | .slug => ["SLUG"]
  | .countryCode => ["COUNTRY", "CODE"]
  | .displayName => ["DISPLAY", "NAME"]
  | .host => ["HOST"]
  | .vpnctlPort => ["VPNCTL", "PORT"]
  | .maxActiveSubscriptions => ["MAX", "ACTIVE", "SUBSCRIPTIONS"]

def ServerField.name : ServerField → Text
  | .enabled => "enabled".toList
  | .slug => "slug".toList
  | .countryCode => "country_code".toList
  | .displayName => "display_name".toList
  | .host => "host".toList
  | .vpnctlPort => "vpnctl_port".toList
  | .maxActiveSubscriptions => "max_active_subscriptions".toList

def legacyServerFields : List Text :=
  ["port", "username", "ssh_private_key_path", "ssh_known_hosts_path"].map String.toList

/-- The member of `SERVER_FIELDS` with that name. -/
def serverField (name : Text) : Option ServerField := ServerField.all.find? fun f => f.name = name

structure ServerConfig where
  slug : Text
  enabled : Bool := true
  countryCode : Text
  displayName : Text
  host : Text := "localhost".toList
  vpnctlPort : ℤ := 7391
  maxActiveSubscriptions : Option ℤ := none
  deriving DecidableEq

/-- What has been read of a server: a `dict` that has a slug from the start. -/
structure ServerData where
  slug : Text
  enabled : Option Bool
  countryCode : Option Text
  displayName : Option Text
  host : Option Text
  vpnctlPort : Option ℤ
  maxActiveSubscriptions : Option (Option ℤ)
  deriving DecidableEq

def ServerData.new (slug : Text) : ServerData := ⟨slug, none, none, none, none, none, none⟩

/-- `str(value).lower() in ("true", "1", "yes")` -/
def isYes (l : StrLower) (value : Text) : Bool := (["true", "1", "yes"].map String.toList).contains (l.lower value)

/-- `int(value)`; there is none where it raises. -/
def int (value : Text) : Option ℤ := Json.readInt (value.map Char.toNat)

/-- `int(value) if value else 7391` -/
def readPort (value : Text) : Option ℤ := if value = [] then some 7391 else int value

/-- `int(value) if value else None` -/
def readMaximum (value : Text) : Option (Option ℤ) := if value = [] then some none else (int value).map some

/-- `server_dict[field_name] = …` -/
def ServerData.assign (l : StrLower) (d : ServerData) (f : ServerField) (value : Text) : Option ServerData :=
  match f with
  | .enabled => some { d with enabled := some (isYes l value) }
  | .slug => some { d with slug := value }
  | .countryCode => some { d with countryCode := some value }
  | .displayName => some { d with displayName := some value }
  | .host => some { d with host := some value }
  | .vpnctlPort => (readPort value).map fun n => { d with vpnctlPort := some n }
  | .maxActiveSubscriptions => (readMaximum value).map fun n => { d with maxActiveSubscriptions := some n }

/-- `ServerConfig(**s_data)`, if there is a country code and a name to show. -/
def ServerData.config (d : ServerData) : Option ServerConfig :=
  match d.countryCode, d.displayName with
  | some countryCode, some displayName => some {
      slug := d.slug
      enabled := d.enabled.getD true
      countryCode
      displayName
      host := d.host.getD "localhost".toList
      vpnctlPort := d.vpnctlPort.getD 7391
      maxActiveSubscriptions := d.maxActiveSubscriptions.getD none }
  | _, _ => none

/-! ### Variables -/

def namePrefix : Text := "VPN_SERVER_".toList

/-- `"_".join(parts)` -/
def join (parts : List Text) : Text := List.intercalate ['_'] parts

/-- `"_".join(parts).lower().replace("_", "-")` -/
def candidateSlug (l : StrLower) (parts : List Text) : Text :=
  (l.lower (join parts)).map fun c => if c = '_' then '-' else c

/-- What the rest of a variable's name says. -/
inductive Key
  | legacy
  | field (candidate : Text) (f : ServerField)

/-- The places to cut, after `front`, up to the first that leaves a field. -/
def readKey (l : StrLower) : List Text → List Text → Option Key
  | _, [] => none
  | front, part :: back =>
    let fieldName := l.lower (join (part :: back))
    if legacyServerFields.contains fieldName then some .legacy
    else match serverField fieldName with
      | some f => some (.field (candidateSlug l front) f)
      | none => readKey l (front ++ [part]) back

/-- The groups read so far, and the settings that are ignored. -/
structure Extracted where
  servers : Dict Text ServerData
  ignored : List Text

def Extracted.step (l : StrLower) (x : Extracted) (setting : Text × Text) : Option Extracted :=
  match setting.1.drop namePrefix.length |>.splitOn '_' with
  | [] => some x
  | part :: parts => match readKey l [part] parts with
    | none => some x
    | some .legacy => some { x with ignored := x.ignored ++ [setting.1] }
    | some (.field candidate f) =>
      (((x.servers.get candidate).getD (.new candidate)).assign l f setting.2).map fun d =>
        { x with servers := x.servers.set candidate d }

/-! ### Settings -/

/-- The keyword arguments, as far as they are read here. -/
structure Data where
  settings : Dict Text Text
  vpnServers : Dict Text ServerConfig

/-- The variables of one source over those of the sources before it. -/
def overlay (settings : Dict Text Text) (source : List (Text × Text)) : Dict Text Text :=
  settings.update (source.filter fun v => namePrefix <+: v.1)

/-- The file, the environment and the keyword arguments; a file may name variables without a value. -/
def sourceDict (file : List (Text × Option Text)) (environ : Dict Text Text) (data : Option Data) : Dict Text Text :=
  let fileSettings := overlay .empty (file.filterMap fun v => v.2.map (v.1, ·))
  overlay (overlay fileSettings environ.entries) ((data.map fun d => d.settings.entries).getD [])

def vpnctlCommand : Text := "VPNCTL_COMMAND".toList

/-- `VPNCTL_COMMAND` is ignored as well. -/
def ignoredCommand (environ : Dict Text Text) (data : Option Data) : List Text :=
  if (environ.get vpnctlCommand).isSome || data.any fun d => (d.settings.get vpnctlCommand).isSome then [vpnctlCommand]
  else []

/-- `vpn_servers` and `ignored_settings`; there are none when a number cannot be read. -/
def extractVpnServers (l : StrLower) (file : List (Text × Option Text)) (environ : Dict Text Text)
    (data : Option Data) :
    Option (Dict Text ServerConfig × List Text) :=
  let start : Extracted := ⟨.empty, ignoredCommand environ data⟩
  ((sourceDict file environ data).entries.foldlM (Extracted.step l) start).map fun x =>
    let finalServers := Dict.empty.update (x.servers.entries.filterMap fun s => s.2.config.map (s.2.slug, ·))
    (finalServers.update ((data.map fun d => d.vpnServers.entries).getD []), x.ignored.dedup.mergeSort (· ≤ ·))

/-! ### Names of variables -/

theorem join_append {a b : List Text} (ha : a ≠ []) (hb : b ≠ []) : join (a ++ b) = join a ++ '_' :: join b := by
  induction a with
  | nil => exact absurd rfl ha
  | cons p a ih =>
    cases a with
    | nil =>
      rw [List.singleton_append, join, List.intercalate_cons_of_ne_nil hb, join, List.intercalate_singleton]
      exact List.append_assoc _ _ _
    | cons q a =>
      have hrest := ih (List.cons_ne_nil q a)
      simp only [join, List.cons_append, List.intercalate_cons_cons] at hrest ⊢
      rw [hrest]
      simp only [List.append_assoc, List.cons_append, List.nil_append]

/-- Without hyphens the replacement can be undone. -/
theorem map_hyphen_inj {t u : Text} (ht : '-' ∉ t) (hu : '-' ∉ u)
    (h : (t.map fun c => if c = '_' then '-' else c) = u.map fun c => if c = '_' then '-' else c) : t = u := by
  have hback : ∀ t : Text, '-' ∉ t →
      ((t.map fun c => if c = '_' then '-' else c).map fun c => if c = '-' then '_' else c) = t := by
    intro t ht
    rw [List.map_map]
    refine (List.map_congr_left fun c hc => ?_).trans (List.map_id t)
    have hne : c ≠ '-' := fun h => ht (h ▸ hc)
    by_cases hunder : c = '_' <;> simp [hunder, hne]
  rw [← hback t ht, ← hback u hu, h]

/-- The name of a field in a variable, in its parts. -/
def ServerField.parts (f : ServerField) : List Text := f.words.map String.toList

theorem ServerField.parts_ne_nil (f : ServerField) : f.parts ≠ [] := by cases f <;> exact List.cons_ne_nil _ _

theorem underscore_notMem_parts (f : ServerField) : ∀ part ∈ f.parts, '_' ∉ part := by cases f <;> decide

theorem lower_parts (l : StrLower) (f : ServerField) : l.lower (join f.parts) = f.name := by
  have hascii : ∀ c ∈ join f.parts, c.val < 128 := by cases f <;> decide
  rw [l.ascii _ hascii]
  cases f <;> decide

theorem serverField_name (f : ServerField) : serverField f.name = some f := by cases f <;> decide

theorem contains_name_legacy (f : ServerField) : legacyServerFields.contains f.name = false := by cases f <;> decide

/-- A field whose name ends with that of another would be cut in two ways. -/
theorem not_suffix_known (f : ServerField) :
    ∀ name ∈ legacyServerFields ++ ServerField.all.map ServerField.name, ¬ '_' :: f.name <:+ name := by
  cases f <;> decide

theorem append_name_unknown (f : ServerField) (t : Text) :
    legacyServerFields.contains (t ++ '_' :: f.name) = false ∧ serverField (t ++ '_' :: f.name) = none := by
  have hsuffix : '_' :: f.name <:+ t ++ '_' :: f.name := List.suffix_append _ _
  constructor
  · rw [← Bool.not_eq_true, List.contains_iff_mem]
    exact fun hmem => not_suffix_known f _ (List.mem_append_left _ hmem) hsuffix
  · rw [serverField, List.find?_eq_none]
    intro f' hf' hname
    have hmem : t ++ '_' :: f.name ∈ ServerField.all.map ServerField.name :=
      List.mem_map.mpr ⟨f', hf', by simpa using hname⟩
    exact not_suffix_known f _ (List.mem_append_right _ hmem) hsuffix

/-- The first cut that leaves a field is the one between the name and the field. -/
theorem readKey_field (l : StrLower) (f : ServerField) (rest front : List Text) :
    readKey l front (rest ++ f.parts) = some (.field (candidateSlug l (front ++ rest)) f) := by
  induction rest generalizing front with
  | nil =>
    obtain ⟨part, parts, hparts⟩ := List.exists_cons_of_ne_nil f.parts_ne_nil
    have hname := lower_parts l f
    rw [hparts] at hname
    rw [List.nil_append, List.append_nil, hparts, readKey]
    simp only [hname, contains_name_legacy, serverField_name, Bool.false_eq_true, if_false]
  | cons part rest ih =>
    have hname : l.lower (join (part :: (rest ++ f.parts))) = l.lower (join (part :: rest)) ++ '_' :: f.name := by
      rw [← List.cons_append, join_append (List.cons_ne_nil _ _) f.parts_ne_nil, l.underscore, lower_parts]
    obtain ⟨hlegacy, hfield⟩ := append_name_unknown f (l.lower (join (part :: rest)))
    rw [List.cons_append, readKey]
    simp only [hname, hlegacy, hfield, Bool.false_eq_true, if_false]
    rw [ih, List.append_assoc]
    rfl

/-! ### Groups -/

/-- The settings of one server. -/
structure ServerGroup where
  /-- The parts of its name. -/
  name : List Text
  values : ServerField → Option Text
  name_ne_nil : name ≠ []
  /-- Letters and digits are neither of the two. -/
  alphanumeric : ∀ part ∈ name, '_' ∉ part ∧ '-' ∉ part
  port : ∀ v, values .vpnctlPort = some v → (readPort v).isSome = true
  maximum : ∀ v, values .maxActiveSubscriptions = some v → (readMaximum v).isSome = true

namespace ServerGroup

/-- `VPN_SERVER_<NAME>_<FIELD>` -/
def key (g : ServerGroup) (f : ServerField) : Text := namePrefix ++ (join g.name ++ '_' :: join f.parts)

def settings (g : ServerGroup) : List (Text × Text) :=
  ServerField.all.filterMap fun f => (g.values f).map fun v => (g.key f, v)

def slug (l : StrLower) (g : ServerGroup) : Text := (g.values .slug).getD (candidateSlug l g.name)

/-- The server it describes, if it is to be shown at all. -/
def config (l : StrLower) (g : ServerGroup) : Option ServerConfig :=
  match g.values .countryCode, g.values .displayName with
  | some countryCode, some displayName => some {
      slug := g.slug l
      enabled := ((g.values .enabled).map (isYes l)).getD true
      countryCode
      displayName
      host := (g.values .host).getD "localhost".toList
      vpnctlPort := ((g.values .vpnctlPort).bind readPort).getD 7391
      maxActiveSubscriptions := ((g.values .maxActiveSubscriptions).bind readMaximum).getD none }
  | _, _ => none

theorem mem_settings {g : ServerGroup} {s : Text × Text} :
    s ∈ g.settings ↔ ∃ f, s.1 = g.key f ∧ g.values f = some s.2 := by
  simp only [settings, List.mem_filterMap, Option.map_eq_some_iff]
  constructor
  · rintro ⟨f, -, v, hv, rfl⟩
    exact ⟨f, rfl, hv⟩
  · rintro ⟨f, hkey, hv⟩
    exact ⟨f, by cases f <;> decide, s.2, hv, Prod.ext hkey.symm rfl⟩

/-- The key is read as it was written. -/
theorem readKey_key (l : StrLower) (g : ServerGroup) (f : ServerField) :
    ∃ part parts, ((g.key f).drop namePrefix.length).splitOn '_' = part :: parts ∧
      readKey l [part] parts = some (.field (candidateSlug l g.name) f) := by
  have hparts : ∀ part ∈ g.name ++ f.parts, '_' ∉ part := by
    intro part hpart
    rcases List.mem_append.mp hpart with hpart | hpart
    · exact (g.alphanumeric part hpart).1
    · exact underscore_notMem_parts f part hpart
  have hsplit : ((g.key f).drop namePrefix.length).splitOn '_' = g.name ++ f.parts := by
    rw [key, List.drop_left, ← join_append g.name_ne_nil f.parts_ne_nil]
    refine List.splitOn_intercalate _ hparts ?_
    exact List.append_ne_nil_of_left_ne_nil g.name_ne_nil _
  obtain ⟨part, rest, hname⟩ := List.exists_cons_of_ne_nil g.name_ne_nil
  refine ⟨part, rest ++ f.parts, by rw [hsplit, hname, List.cons_append], ?_⟩
  rw [readKey_field, hname]
  rfl

/-- Two groups write the same variable only if they have the same name. -/
theorem key_inj (l : StrLower) {g g' : ServerGroup} {f f' : ServerField} (h : g.key f = g'.key f') :
    candidateSlug l g.name = candidateSlug l g'.name ∧ f = f' := by
  obtain ⟨part, parts, hsplit, hkey⟩ := readKey_key l g f
  obtain ⟨part', parts', hsplit', hkey'⟩ := readKey_key l g' f'
  rw [h, hsplit'] at hsplit
  obtain ⟨rfl, rfl⟩ := List.cons.inj hsplit
  rw [hkey'] at hkey
  obtain ⟨hcandidate, hf⟩ := Key.field.inj (Option.some.inj hkey)
  exact ⟨hcandidate.symm, hf.symm⟩

/-- Names that differ in lower case have different slugs. -/
theorem candidateSlug_inj (l : StrLower) {g g' : ServerGroup} (h : candidateSlug l g.name = candidateSlug l g'.name) :
    l.lower (join g.name) = l.lower (join g'.name) := by
  have hhyphen : ∀ g : ServerGroup, '-' ∉ l.lower (join g.name) := by
    intro g hmem
    rcases Text.mem_intercalate (l.hyphen _ hmem) with h | ⟨part, hpart, hc⟩
    · exact absurd h (by decide)
    · exact (g.alphanumeric part hpart).2 hc
  exact map_hyphen_inj (hhyphen g) (hhyphen g') h

theorem candidate_inj {l : StrLower} {groups : List ServerGroup}
    (hnames : (groups.map fun g => l.lower (join g.name)).Nodup)
    {g g' : ServerGroup} (hg : g ∈ groups) (hg' : g' ∈ groups)
    (h : candidateSlug l g.name = candidateSlug l g'.name) : g = g' :=
  List.inj_on_of_nodup_map hnames hg hg' (candidateSlug_inj l h)

end ServerGroup

/-! ### One variable after the other -/

/-- The data of a server whose fields have these values. -/
def dataOf (l : StrLower) (slug : Text) (values : ServerField → Option Text) : ServerData where
  slug := (values .slug).getD slug
  enabled := (values .enabled).map (isYes l)
  countryCode := values .countryCode
  displayName := values .displayName
  host := values .host
  vpnctlPort := (values .vpnctlPort).bind readPort
  maxActiveSubscriptions := (values .maxActiveSubscriptions).bind readMaximum

/-- The two fields that hold numbers hold numbers. -/
def Readable : ServerField → Text → Prop
  | .vpnctlPort, v => (readPort v).isSome = true
  | .maxActiveSubscriptions, v => (readMaximum v).isSome = true
  | _, _ => True

theorem assign_dataOf {l : StrLower} {f : ServerField} {v : Text} (hv : Readable f v) (slug : Text)
    (values : ServerField → Option Text) :
    (dataOf l slug values).assign l f v = some (dataOf l slug fun f' => if f' = f then some v else values f') := by
  cases f with
  | vpnctlPort =>
    obtain ⟨n, hn⟩ := Option.isSome_iff_exists.mp hv
    simp [ServerData.assign, dataOf, hn]
  | maxActiveSubscriptions =>
    obtain ⟨n, hn⟩ := Option.isSome_iff_exists.mp hv
    simp [ServerData.assign, dataOf, hn]
  | _ => simp [ServerData.assign, dataOf]

namespace ServerGroup

theorem readable {g : ServerGroup} {f : ServerField} {v : Text} (h : g.values f = some v) : Readable f v := by
  cases f with
  | vpnctlPort => exact g.port v h
  | maxActiveSubscriptions => exact g.maximum v h
  | _ => trivial

/-- The values of the group among the variables read so far. -/
def given (g : ServerGroup) (read : List (Text × Text)) (f : ServerField) : Option Text := read.lookup (g.key f)

theorem given_append_self (l : StrLower) {g : ServerGroup} {f : ServerField} {read : List (Text × Text)}
    (hnew : g.key f ∉ read.map Prod.fst) (v : Text) :
    g.given (read ++ [(g.key f, v)]) = fun f' => if f' = f then some v else g.given read f' := by
  funext f'
  rw [given, List.lookup_append, Dict.lookup_cons, List.lookup_nil]
  by_cases hf : f' = f
  · have hnone : read.lookup (g.key f) = none := by
      rw [List.lookup_eq_none_iff]
      intro e he
      rw [bne_iff_ne]
      exact fun h => hnew (h ▸ List.mem_map_of_mem he)
    rw [hf, if_pos rfl, if_pos rfl, hnone]
    rfl
  · rw [if_neg fun h => hf (key_inj l h).2, if_neg hf, Option.or_none]
    rfl

theorem given_append_of_ne (l : StrLower) {g g' : ServerGroup} (h : candidateSlug l g'.name ≠ candidateSlug l g.name)
    (f : ServerField) (v : Text) (read : List (Text × Text)) : g'.given (read ++ [(g.key f, v)]) = g'.given read := by
  funext f'
  rw [given, List.lookup_append, Dict.lookup_cons, List.lookup_nil,
    if_neg fun hkey => h (key_inj l hkey).1, Option.or_none]
  rfl

/-- What is known of a group are its values so far, once there is one. -/
def Known (l : StrLower) (read : List (Text × Text)) (x : Extracted) (g : ServerGroup) : Prop :=
  (x.servers.get (candidateSlug l g.name) = none ∧ ∀ f, g.given read f = none) ∨
    (x.servers.get (candidateSlug l g.name) = some (dataOf l (candidateSlug l g.name) (g.given read)) ∧
      ∃ f, (g.given read f).isSome = true)

theorem Known.getD {l : StrLower} {read : List (Text × Text)} {x : Extracted} {g : ServerGroup} (h : g.Known l read x) :
    (x.servers.get (candidateSlug l g.name)).getD (.new (candidateSlug l g.name)) =
      dataOf l (candidateSlug l g.name) (g.given read) := by
  rcases h with ⟨hget, hnone⟩ | ⟨hget, -⟩
  · rw [hget, Option.getD_none, dataOf]
    simp only [hnone]
    rfl
  · rw [hget, Option.getD_some]

end ServerGroup

/-- After these variables every group is known by its own values, and there is nothing else. -/
structure Reads (l : StrLower) (groups : List ServerGroup) (read : List (Text × Text)) (x : Extracted) : Prop where
  known : ∀ g ∈ groups, g.Known l read x
  only : ∀ c d, x.servers.get c = some d → ∃ g ∈ groups, candidateSlug l g.name = c

theorem step_key (l : StrLower) (x : Extracted) (g : ServerGroup) (f : ServerField) (v : Text) :
    x.step l (g.key f, v) =
      (((x.servers.get (candidateSlug l g.name)).getD (.new (candidateSlug l g.name))).assign l f v).map fun d =>
        { x with servers := x.servers.set (candidateSlug l g.name) d } := by
  obtain ⟨part, parts, hsplit, hkey⟩ := g.readKey_key l f
  unfold Extracted.step
  simp only [hsplit, hkey]

theorem Reads.step {l : StrLower} {groups : List ServerGroup}
    (hnames : (groups.map fun g => l.lower (join g.name)).Nodup)
    {read : List (Text × Text)} {x : Extracted} (h : Reads l groups read x) {g : ServerGroup} (hg : g ∈ groups)
    {f : ServerField} {v : Text} (hv : g.values f = some v) (hnew : g.key f ∉ read.map Prod.fst) :
    ∃ y, x.step l (g.key f, v) = some y ∧ Reads l groups (read ++ [(g.key f, v)]) y := by
  rw [step_key, (h.known g hg).getD, assign_dataOf (ServerGroup.readable hv)]
  refine ⟨_, rfl, fun g' hg' => ?_, fun c d hd => ?_⟩
  · by_cases hsame : candidateSlug l g'.name = candidateSlug l g.name
    · obtain rfl := ServerGroup.candidate_inj hnames hg' hg hsame
      right
      rw [ServerGroup.given_append_self l hnew]
      exact ⟨by rw [Dict.get_set, if_pos rfl], f, by simp⟩
    · unfold ServerGroup.Known
      rw [ServerGroup.given_append_of_ne l hsame, Dict.get_set, if_neg hsame]
      exact h.known g' hg'
  · rw [Dict.get_set] at hd
    split at hd
    · rename_i hc
      exact ⟨g, hg, hc.symm⟩
    · exact h.only c d hd

theorem Reads.foldlM {l : StrLower} {groups : List ServerGroup}
    (hnames : (groups.map fun g => l.lower (join g.name)).Nodup)
    {read : List (Text × Text)} {x : Extracted} (h : Reads l groups read x) {rest : List (Text × Text)}
    (hkeys : ((read ++ rest).map Prod.fst).Nodup) (hrest : ∀ s ∈ rest, ∃ g ∈ groups, s ∈ g.settings) :
    ∃ y, rest.foldlM (Extracted.step l) x = some y ∧ Reads l groups (read ++ rest) y := by
  induction rest generalizing read x with
  | nil =>
    rw [List.append_nil]
    exact ⟨x, rfl, h⟩
  | cons s rest ih =>
    obtain ⟨⟨g, hg, hs⟩, hrest⟩ := List.forall_mem_cons.mp hrest
    obtain ⟨f, hkey, hv⟩ := ServerGroup.mem_settings.mp hs
    have hnew : g.key f ∉ read.map Prod.fst := by
      rw [List.map_append, List.map_cons] at hkeys
      rw [← hkey]
      exact fun hmem => List.disjoint_of_nodup_append hkeys hmem List.mem_cons_self
    have hsplit : read ++ s :: rest = read ++ [(g.key f, s.2)] ++ rest := by
      rw [← hkey, List.append_assoc, List.singleton_append]
    obtain ⟨y, hy, hread⟩ := h.step hnames hg hv hnew
    obtain ⟨z, hz, hread⟩ := ih hread (hsplit ▸ hkeys) hrest
    refine ⟨z, ?_, hsplit ▸ hread⟩
    rw [List.foldlM_cons, show s = (g.key f, s.2) from Prod.ext hkey rfl, hy]
    exact hz

/-! ### All of them -/

namespace ServerGroup

/-- The group has a variable at all. -/
def appears (g : ServerGroup) : Bool := ServerField.all.any fun f => (g.values f).isSome

theorem appears_iff {g : ServerGroup} : g.appears = true ↔ ∃ f, (g.values f).isSome = true := by
  rw [appears, List.any_eq_true]
  constructor
  · exact fun ⟨f, _, h⟩ => ⟨f, h⟩
  · exact fun ⟨f, h⟩ => ⟨f, by cases f <;> decide, h⟩

def data (l : StrLower) (g : ServerGroup) : ServerData := dataOf l (candidateSlug l g.name) g.values

theorem config_data (l : StrLower) (g : ServerGroup) :
    (g.data l).config.map ((g.data l).slug, ·) = (g.config l).map (g.slug l, ·) := by
  unfold data ServerData.config config
  dsimp only [dataOf]
  cases g.values .countryCode with
  | none => rfl
  | some c =>
    cases g.values .displayName with
    | none => rfl
    | some d => rfl

theorem config_of_not_appears {l : StrLower} {g : ServerGroup} (h : ¬ g.appears = true) : g.config l = none := by
  have hnone : g.values .countryCode = none := by
    by_contra hsome
    exact h (appears_iff.mpr ⟨.countryCode, Option.isSome_iff_ne_none.mpr hsome⟩)
  rw [config, hnone]

/-- Once all variables are read, the group has the values it was given. -/
theorem given_all {l : StrLower} {groups : List ServerGroup}
    (hnames : (groups.map fun g => l.lower (join g.name)).Nodup)
    {read : List (Text × Text)} (hkeys : (read.map Prod.fst).Nodup) (hread : read.Perm (groups.flatMap settings))
    {g : ServerGroup} (hg : g ∈ groups) : g.given read = g.values := by
  funext f
  refine Option.ext fun v => ?_
  rw [given, Dict.lookup_eq_some hkeys, hread.mem_iff, List.mem_flatMap]
  constructor
  · rintro ⟨g', hg', hmem⟩
    obtain ⟨f', hkey, hv⟩ := mem_settings.mp hmem
    obtain ⟨hsame, rfl⟩ := key_inj l hkey
    rwa [candidate_inj hnames hg hg' hsame]
  · exact fun hv => ⟨g, hg, mem_settings.mpr ⟨f, rfl, hv⟩⟩

end ServerGroup

theorem Reads.entries {l : StrLower} {groups : List ServerGroup}
    (hnames : (groups.map fun g => l.lower (join g.name)).Nodup)
    {read : List (Text × Text)} (hkeys : (read.map Prod.fst).Nodup)
    (hread : read.Perm (groups.flatMap ServerGroup.settings))
    {x : Extracted} (h : Reads l groups read x) :
    x.servers.entries.Perm
      ((groups.filter ServerGroup.appears).map fun g => (candidateSlug l g.name, g.data l)) := by
  have hcandidates : ((groups.filter ServerGroup.appears).map fun g => candidateSlug l g.name).Nodup := by
    refine List.Nodup.map_on ?_ ((List.Nodup.of_map _ hnames).filter _)
    intro g hg g' hg' hsame
    exact ServerGroup.candidate_inj hnames (List.mem_of_mem_filter hg) (List.mem_of_mem_filter hg') hsame
  rw [List.perm_ext_iff_of_nodup (List.Nodup.of_map _ x.servers.nodup)
    (List.Nodup.of_map Prod.fst (by rwa [List.map_map]))]
  rintro ⟨c, d⟩
  rw [← Dict.get_eq_some, List.mem_map]
  constructor
  · intro hget
    obtain ⟨g, hg, rfl⟩ := h.only c d hget
    rcases h.known g hg with ⟨hnone, -⟩ | ⟨hsome, f, hf⟩
    · rw [hnone] at hget
      cases hget
    · rw [ServerGroup.given_all hnames hkeys hread hg] at hsome hf
      rw [hsome] at hget
      cases hget
      exact ⟨g, List.mem_filter.mpr ⟨hg, ServerGroup.appears_iff.mpr ⟨f, hf⟩⟩, rfl⟩
  · rintro ⟨g, hg, heq⟩
    obtain ⟨rfl, rfl⟩ := Prod.mk.inj heq
    obtain ⟨hg, happears⟩ := List.mem_filter.mp hg
    obtain ⟨f, hf⟩ := ServerGroup.appears_iff.mp happears
    rcases h.known g hg with ⟨-, hnone⟩ | ⟨hsome, -⟩
    · rw [← ServerGroup.given_all hnames hkeys hread hg, hnone f] at hf
      cases hf
    · rw [hsome, ServerGroup.given_all hnames hkeys hread hg]
      rfl

/-- Groups without a variable have no server either. -/
theorem filterMap_appears (l : StrLower) (groups : List ServerGroup) :
    ((groups.filter ServerGroup.appears).map fun g => (candidateSlug l g.name, g.data l)).filterMap
        (fun s => s.2.config.map (s.2.slug, ·)) = groups.filterMap fun g => (g.config l).map (g.slug l, ·) := by
  induction groups with
  | nil => rfl
  | cons g groups ih =>
    by_cases h : g.appears = true
    · rw [List.filter_cons_of_pos h, List.map_cons, List.filterMap_cons, List.filterMap_cons, ih,
        ServerGroup.config_data]
    · rw [List.filter_cons_of_neg h, ih, List.filterMap_cons, ServerGroup.config_of_not_appears h]
      rfl

theorem slugs_nodup {l : StrLower} {groups : List ServerGroup} (hslugs : (groups.map (ServerGroup.slug l)).Nodup) :
    ((groups.filterMap fun g => (g.config l).map (g.slug l, ·)).map Prod.fst).Nodup := by
  refine hslugs.sublist ?_
  clear hslugs
  induction groups with
  | nil => exact List.Sublist.slnil
  | cons g groups ih =>
    rw [List.filterMap_cons, List.map_cons]
    cases g.config l with
    | none => exact ih.cons _
    | some c => exact ih.cons_cons _

/-- For any groups whose names differ in lower case and whose slugs differ, and any sources that have their variables
between them, in any order: there is one server for each group that has a country code and a name to show, under
its slug and with its values, and no other. -/
theorem extractVpnServers_groups (l : StrLower) {groups : List ServerGroup}
    (hnames : (groups.map fun g => l.lower (join g.name)).Nodup) (hslugs : (groups.map (ServerGroup.slug l)).Nodup)
    {file : List (Text × Option Text)} {environ : Dict Text Text} {data : Option Data}
    (hsource : (sourceDict file environ data).entries.Perm (groups.flatMap ServerGroup.settings))
    (hdata : ∀ d, data = some d → d.vpnServers = .empty) :
    ∃ servers ignored, extractVpnServers l file environ data = some (servers, ignored) ∧
      servers.entries.Perm (groups.filterMap fun g => (g.config l).map (g.slug l, ·)) := by
  have hkeys := (sourceDict file environ data).nodup
  have hsettings : ∀ s ∈ (sourceDict file environ data).entries, ∃ g ∈ groups, s ∈ g.settings := fun s hs =>
    List.mem_flatMap.mp (hsource.mem_iff.mp hs)
  have hexisting : (data.map fun d => d.vpnServers.entries).getD [] = [] := by
    cases data with
    | none => rfl
    | some d =>
      rw [Option.map_some, Option.getD_some, hdata d rfl]
      rfl
  unfold extractVpnServers
  dsimp only
  generalize ignoredCommand environ data = ignored
  have hstart : Reads l groups [] ⟨.empty, ignored⟩ :=
    ⟨fun g _ => .inl ⟨rfl, fun _ => rfl⟩, fun c d hd => by cases hd⟩
  obtain ⟨x, hx, hreads⟩ := hstart.foldlM hnames hkeys hsettings
  have hperm := ((hreads.entries hnames hkeys hsource).filterMap fun s => s.2.config.map (s.2.slug, ·)).trans
    (List.Perm.of_eq (filterMap_appears l groups))
  have hslugs' := (hperm.map Prod.fst).nodup_iff.mpr (slugs_nodup hslugs)
  rw [hx, hexisting]
  exact ⟨_, _, rfl, (List.Perm.of_eq (Dict.entries_update (d := .empty) hslugs')).trans hperm⟩

theorem toLower_eq_hyphen {c : Char} (h : c.toLower = '-') : c = '-' := by
  unfold Char.toLower at h
  split at h
  · rename_i hupper
    obtain ⟨hge, hle⟩ := hupper
    rw [ge_iff_le, UInt32.le_iff_toNat_le] at hge
    rw [UInt32.le_iff_toNat_le] at hle
    have hval := congrArg (fun c => c.val.toNat) h
    simp [UInt32.toNat_add] at hval hge hle
    omega
  · exact h

/-- `str.lower` of a text in ASCII. -/
def asciiLower : StrLower where
  lower t := t.map Char.toLower
  ascii _ _ := rfl
  underscore t u := by
    rw [List.map_append, List.map_cons]
    rfl
  hyphen t h := by
    obtain ⟨c, hc, hlower⟩ := List.mem_map.mp h
    exact toLower_eq_hyphen hlower ▸ hc

def germany : ServerGroup where
  name := ["DE".toList, "1".toList]
  values
    | .countryCode => some "DE".toList
    | .displayName => some "Germany".toList
    | .vpnctlPort => some "7400".toList
    | _ => none
  name_ne_nil := by decide
  alphanumeric := by decide
  port := by decide
  maximum := by decide

/-- A name of words that are fields elsewhere. -/
def hostSlug : ServerGroup where
  name := ["HOST".toList, "SLUG".toList]
  values
    | .countryCode => some "TR".toList
    | .displayName => some "Turkey".toList
    | .enabled => some "No".toList
    | _ => none
  name_ne_nil := by decide
  alphanumeric := by decide
  port := by decide
  maximum := by decide

def mixedUp : Dict Text Text := Dict.empty.update (germany.settings ++ hostSlug.settings).reverse

theorem extractVpnServers_groups_mixedUp :
    ∃ servers ignored, extractVpnServers asciiLower [] mixedUp none = some (servers, ignored) ∧
      servers.entries.Perm
        ([germany, hostSlug].filterMap fun g => (g.config asciiLower).map (g.slug asciiLower, ·)) := by
  have hsource : (sourceDict [] mixedUp none).entries.Perm ([germany, hostSlug].flatMap ServerGroup.settings) := by
    decide +kernel
  exact extractVpnServers_groups asciiLower (by decide +kernel) (by decide +kernel) hsource (fun d hd => by cases hd)

end AmneziaVpnBot.Config
