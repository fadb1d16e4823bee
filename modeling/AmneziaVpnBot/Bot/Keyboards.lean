import AmneziaVpnBot.Lib.Split
import AmneziaVpnBot.Lib.Uuid
import AmneziaVpnBot.Vpnctl.Server

/-! The menus of the shop (`src/app/bot/keyboards/customer_keyboards.py`) and how the handlers
behind their buttons (`src/app/bot/handlers/customer.py`) read them. A button only carries a
text, in which values are joined with underscores. A renewal survives whatever the code of its
plan is, since its handler cuts at two underscores only; the button of a new plan survives
exactly when neither the slug nor the code has an underscore. -/

namespace AmneziaVpnBot.Bot

open Text

/-- What the menu shows of a server's row. -/
structure ServerItem where
  slug : Text
  countryCode : Text

/-- What the menu shows of a product's row. -/
structure PlanItem where
  code : Text
  priceAmount : Text
  priceCurrency : Text

/-- The texts of one language. -/
structure Locale where
  getText : String → Text
  serverName : ServerItem → Text
  productTitle : PlanItem → Text

structure Button where
  text : Text
  callbackData : Text

def flags : List (Text × Text) :=
  [("DE", "🇩🇪"), ("TR", "🇹🇷"), ("NL", "🇳🇱"), ("FI", "🇫🇮"), ("US", "🇺🇸")].map fun p => (p.1.toList, p.2.toList)

def flag (countryCode : Text) : Text := (flags.lookup countryCode).getD "🌐".toList

/-! ### Writing -/

def serverButton (loc : Locale) (s : ServerItem) : Button where
  text := flag s.countryCode ++ ' ' :: loc.serverName s
  callbackData := "srv_".toList ++ s.slug

/-- One row for each server. -/
def getServersKeyboard (loc : Locale) (servers : List ServerItem) : List Button :=
  servers.map (serverButton loc) ++ [⟨loc.getText "btn_cancel", "cancel_order".toList⟩]

/-- With `renews`, the plan extends that subscription. -/
def planData (serverSlug : Text) (renews : Option Uuid) (code : Text) : Text :=
  match renews with
  | some id => "rnw_".toList ++ (id.hex ++ '_' :: code)
  | none => "plan_".toList ++ (serverSlug ++ '_' :: code)

theorem planData_none (slug code : Text) : planData slug none code = "plan_".toList ++ (slug ++ '_' :: code) := rfl

theorem planData_some (slug : Text) (id : Uuid) (code : Text) :
    planData slug (some id) code = "rnw_".toList ++ (id.hex ++ '_' :: code) := rfl

def planButton (loc : Locale) (serverSlug : Text) (renews : Option Uuid) (p : PlanItem) : Button where
  text := "📦 ".toList ++ loc.productTitle p ++ " - ".toList ++ p.priceAmount ++ ' ' :: p.priceCurrency
  callbackData := planData serverSlug renews p.code

def getProductsKeyboard (loc : Locale) (serverSlug : Text) (products : List PlanItem) (renews : Option Uuid) :
    List Button :=
  products.map (planButton loc serverSlug renews) ++
    [⟨loc.getText "btn_back", renews.elim "menu_buy".toList fun id => "sub_view_".toList ++ id.text⟩]

/-- The data of the button in row `i`. -/
def pressed (keyboard : List Button) (i : ℕ) : Text := keyboard[i]?.elim [] Button.callbackData

/-! ### Reading -/

/-- The slug `callback_select_server` looks up. -/
def selectedServer (data : Text) : Option Text := (split "srv_".toList data)[1]?

/-- The slug and the code `callback_select_plan` looks up. -/
def selectedPlan (data : Text) : Option (Text × Text) :=
  let parts := split ['_'] data
  parts[1]?.bind fun slug => parts[2]?.map fun code => (slug, code)

/-- `uuid.UUID(hex=value)` -/
def uuidOfHex (value : Text) : Option Uuid :=
  let n := ofHexDigits ((Vpnctl.uuidDigits value).filterMap Vpnctl.hexValue)
  if Vpnctl.isUuid value then if h : n < 2 ^ 128 then some ⟨n, h⟩ else none else none

/-- The subscription and the code `callback_select_renewal_plan` looks up. -/
def selectedRenewal (data : Text) : Option (Uuid × Text) :=
  match splitMax ['_'] 2 data with
  | [_, subHex, planCode] => (uuidOfHex subHex).map fun id => (id, planCode)
  | _ => none

/-! ### Reading what was written -/

theorem selectedServer_iff (slug : Text) :
    selectedServer ("srv_".toList ++ slug) = some slug ↔ ¬ "srv_".toList <:+: slug := by
  have hcuts : ("srv_".toList ++ slug).length = slug.length + 2 + 1 + 1 := by simp
  rw [selectedServer, split, splitMax, hcuts, splitFrom_sep (by decide), List.getElem?_cons_succ,
    ← List.head?_eq_getElem?]
  exact head_splitFrom (by decide) _ _

theorem selectedPlan_iff (slug code : Text) :
    selectedPlan ("plan_".toList ++ (slug ++ '_' :: code)) = some (slug, code) ↔ '_' ∉ slug ∧ '_' ∉ code := by
  have hcuts : ("plan_".toList ++ (slug ++ '_' :: code)).length = slug.length + code.length + 4 + 1 + 1 := by
    simp
    omega
  have hplan : split ['_'] ("plan_".toList ++ (slug ++ '_' :: code)) =
      "plan".toList :: splitFrom ['_'] (slug.length + code.length + 4 + 1) 0 (slug ++ '_' :: code) := by
    rw [split, splitMax, hcuts]
    exact splitFrom_join (u := "plan".toList) (by decide) _ _
  rw [selectedPlan]
  simp only [hplan, List.getElem?_cons_succ]
  by_cases hslug : '_' ∈ slug
  · -- the first piece is cut short, so it is not the slug
    simp only [hslug, not_true_eq_false, false_and, iff_false]
    intro h
    obtain ⟨p, hp, h⟩ := Option.bind_eq_some_iff.mp h
    obtain ⟨q, -, h⟩ := Option.map_eq_some_iff.mp h
    obtain ⟨rfl, -⟩ := Prod.mk.inj h
    rw [← List.head?_eq_getElem?] at hp
    exact not_mem_head_splitFrom hp hslug
  · have hsep : ['_'] ≠ [] := List.cons_ne_nil _ _
    have hhead := head_splitFrom hsep (slug.length + code.length + 3) code
    rw [List.head?_eq_getElem?, singleton_infix] at hhead
    simp only [splitFrom_join hslug, List.getElem?_cons_zero, List.getElem?_cons_succ, Option.bind_some,
      Option.map_eq_some_iff, Prod.mk.injEq, true_and, exists_eq_right, hslug, not_false_eq_true]
    exact hhead

/-! ### UUIDs in buttons -/

theorem removeAll_of_not_mem {c : Char} (pattern : Text) {t : Text} (h : c ∉ t) :
    Vpnctl.removeAll (c :: pattern) 0 t = t := by
  induction t with
  | nil => rfl
  | cons d ds ih =>
    rw [List.mem_cons, not_or] at h
    rw [Vpnctl.removeAll, if_neg (by simp [h.1]), ih h.2]

theorem hexValue_digitChar : ∀ d < 16, Vpnctl.hexValue (Nat.digitChar d) = some d := by decide

theorem filterMap_hexValue {ds : List ℕ} (h : ∀ d ∈ ds, d < 16) :
    (ds.map Nat.digitChar).filterMap Vpnctl.hexValue = ds := by
  induction ds with
  | nil => rfl
  | cons d ds ih =>
    rw [List.forall_mem_cons] at h
    rw [List.map_cons, List.filterMap_cons_some (hexValue_digitChar d h.1), ih h.2]

theorem isHexNumber_digits {ds : List ℕ} (h : ∀ d ∈ ds, d < 16) (afterDigit : Bool) (hne : ds ≠ [] ∨ afterDigit) :
    Vpnctl.isHexNumber afterDigit (ds.map Nat.digitChar) = true := by
  induction ds generalizing afterDigit with
  | nil =>
    rw [List.map_nil, Vpnctl.isHexNumber]
    simpa using hne
  | cons d ds ih =>
    rw [List.forall_mem_cons] at h
    have hunderscore : ∀ d < 16, Nat.digitChar d ≠ '_' := by decide
    rw [List.map_cons, Vpnctl.isHexNumber, if_neg (hunderscore d h.1), hexValue_digitChar d h.1, ih h.2 true (.inr rfl)]
    rfl

theorem not_mem_hex_of {p : Char → Bool} (hp : ∀ d < 16, p (Nat.digitChar d) = false) (id : Uuid) :
    ∀ c ∈ id.hex, p c = false := by
  intro c hc
  obtain ⟨d, hd, rfl⟩ := Uuid.exists_digit_of_mem_hex hc
  exact hp d hd

theorem dropWhile_hex {p : Char → Bool} (hp : ∀ d < 16, p (Nat.digitChar d) = false) (id : Uuid) :
    (id.hex.dropWhile p).rdropWhile p = id.hex := by
  have hall := not_mem_hex_of hp id
  have hfront : id.hex.dropWhile p = id.hex := by
    cases h : id.hex with
    | nil => rfl
    | cons c cs => exact List.dropWhile_cons_of_neg (by simp [hall c (by simp [h])])
  rw [hfront, List.rdropWhile_eq_self_iff]
  intro hne
  simp [hall _ (List.getLast_mem hne)]

theorem uuidDigits_hex (id : Uuid) : Vpnctl.uuidDigits id.hex = id.hex := by
  have hu : 'u' ∉ id.hex := Uuid.not_mem_hex (by decide) id
  have hurn : Vpnctl.removeAll "urn:".toList 0 id.hex = id.hex := removeAll_of_not_mem "rn:".toList hu
  have huuid : Vpnctl.removeAll "uuid:".toList 0 id.hex = id.hex := removeAll_of_not_mem "uid:".toList hu
  have hhyphen : ∀ d < 16, decide (Nat.digitChar d ≠ '-') = true := by decide
  have hascii : ∀ d < 16, Vpnctl.asciiDigit (Nat.digitChar d) = Nat.digitChar d := by decide
  have hkept : id.hex.filter (· ≠ '-') = id.hex := by
    refine List.filter_eq_self.mpr fun c hc => ?_
    obtain ⟨d, hd, rfl⟩ := Uuid.exists_digit_of_mem_hex hc
    exact hhyphen d hd
  rw [Vpnctl.uuidDigits, hurn, huuid, dropWhile_hex (by decide), hkept]
  refine (List.map_congr_left fun c hc => ?_).trans (List.map_id _)
  obtain ⟨d, hd, rfl⟩ := Uuid.exists_digit_of_mem_hex hc
  exact hascii d hd

theorem isUuid_hex (id : Uuid) : Vpnctl.isUuid id.hex = true := by
  have hx : 'x' ∉ id.hex := Uuid.not_mem_hex (by decide) id
  have hX : 'X' ∉ id.hex := Uuid.not_mem_hex (by decide) id
  have hstrip : (id.hex.dropWhile Vpnctl.isPadding).rdropWhile Vpnctl.isPadding = id.hex := dropWhile_hex (by decide) id
  have hplus : id.hex.head? ≠ some '+' := fun h => Uuid.not_mem_hex (c := '+') (by decide) id (List.mem_of_head? h)
  have hnumber : Vpnctl.isHexNumber false id.hex = true := by
    refine isHexNumber_digits (fun _ => lt_of_mem_hexDigits) false (.inl ?_)
    rw [← List.length_pos_iff, length_hexDigits]
    decide
  unfold Vpnctl.isUuid
  simp only [uuidDigits_hex, hstrip, if_neg hplus, Uuid.length_hex, decide_true, Bool.true_and]
  generalize id.hex = t at hx hX hnumber ⊢
  -- without an x there is no mark of a hex number to skip
  split
  · simp at hx
  · simp at hX
  · simp at hx
  · simp at hX
  · exact hnumber

/-- The id that a button of the renewal menu carries. -/
theorem uuidOfHex_hex (id : Uuid) : uuidOfHex id.hex = some id := by
  have hvalue : ofHexDigits ((Vpnctl.uuidDigits id.hex).filterMap Vpnctl.hexValue) = id.value := by
    have hdigits : id.hex.filterMap Vpnctl.hexValue = id.digits := filterMap_hexValue fun _ => lt_of_mem_hexDigits
    rw [uuidDigits_hex, hdigits, Uuid.ofHexDigits_digits]
  rw [uuidOfHex, if_pos (isUuid_hex id)]
  simp only [hvalue, id.lt, ↓reduceDIte]

theorem selectedRenewal_eq (id : Uuid) (code : Text) :
    selectedRenewal ("rnw_".toList ++ (id.hex ++ '_' :: code)) = some (id, code) := by
  have hhex : '_' ∉ id.hex := Uuid.not_mem_hex (by decide) id
  have hparts : splitMax ['_'] 2 ("rnw_".toList ++ (id.hex ++ '_' :: code)) = ["rnw".toList, id.hex, code] := by
    have htext : "rnw_".toList ++ (id.hex ++ '_' :: code) = "rnw".toList ++ '_' :: (id.hex ++ '_' :: code) := by simp
    rw [htext, splitMax, splitFrom_join (by decide), splitFrom_join hhex, splitFrom_zero]
  rw [selectedRenewal, hparts]
  simp [uuidOfHex_hex]

/-! ### Whole menus -/

theorem pressed_server (loc : Locale) {servers : List ServerItem} {i : ℕ} {s : ServerItem} (h : servers[i]? = some s) :
    pressed (getServersKeyboard loc servers) i = "srv_".toList ++ s.slug := by
  have hrow : (getServersKeyboard loc servers)[i]? = some (serverButton loc s) := by
    rw [getServersKeyboard, List.getElem?_append_left (by simpa using (List.getElem?_eq_some_iff.mp h).1),
      List.getElem?_map, h]
    rfl
  rw [pressed, hrow]
  rfl

theorem pressed_plan (loc : Locale) (slug : Text) (renews : Option Uuid) {products : List PlanItem}
    {j : ℕ} {p : PlanItem}
    (h : products[j]? = some p) :
    pressed (getProductsKeyboard loc slug products renews) j = planData slug renews p.code := by
  have hrow : (getProductsKeyboard loc slug products renews)[j]? = some (planButton loc slug renews p) := by
    rw [getProductsKeyboard, List.getElem?_append_left (by simpa using (List.getElem?_eq_some_iff.mp h).1),
      List.getElem?_map, h]
    rfl
  rw [pressed, hrow]
  rfl

/-- The buttons of row `i` of the servers and row `j` of the plans, for a new order and for a renewal,
give back the slug, the code and the id they were made from. -/
def LeadsBack (loc : Locale) (servers : List ServerItem) (products : List PlanItem) (id : Uuid) (i j : ℕ)
    (slug code : Text) :
    Prop :=
  selectedServer (pressed (getServersKeyboard loc servers) i) = some slug ∧
    selectedPlan (pressed (getProductsKeyboard loc slug products none) j) = some (slug, code) ∧
    selectedRenewal (pressed (getProductsKeyboard loc slug products (some id)) j) = some (id, code)

/-- The menus lead to what they show exactly when neither the slug nor the code has an underscore. -/
theorem leadsBack_iff (loc : Locale) {servers : List ServerItem} {products : List PlanItem} {i j : ℕ} {s : ServerItem}
    {p : PlanItem} (hs : servers[i]? = some s) (hp : products[j]? = some p) (id : Uuid) :
    LeadsBack loc servers products id i j s.slug p.code ↔ '_' ∉ s.slug ∧ '_' ∉ p.code := by
  have hrenewal := selectedRenewal_eq id p.code
  have hserver : '_' ∉ s.slug → ¬ "srv_".toList <:+: s.slug := fun h hpart => h (hpart.subset (by decide))
  rw [LeadsBack, pressed_server loc hs, selectedServer_iff, pressed_plan loc _ _ hp, pressed_plan loc _ _ hp]
  simp only [planData_none, planData_some, selectedPlan_iff, hrenewal, and_true]
  exact ⟨And.right, fun h => ⟨hserver h.1, h⟩⟩

/-- A locale that shows nothing. -/
def blankLocale : Locale := ⟨fun _ => [], fun _ => [], fun _ => []⟩

theorem leadsBack_iff_vpn :
    LeadsBack blankLocale [⟨"main-1".toList, "DE".toList⟩] [⟨"vpn-1m".toList, [], []⟩] ⟨0, by decide⟩ 0
      0 "main-1".toList
      "vpn-1m".toList ↔ '_' ∉ "main-1".toList ∧ '_' ∉ "vpn-1m".toList :=
  leadsBack_iff blankLocale (s := ⟨"main-1".toList, "DE".toList⟩) (p := ⟨"vpn-1m".toList, [], []⟩) rfl
    rfl ⟨0, by decide⟩

/-- The plan `vpn_1m` is offered on `main-1` and looked up as `vpn`. -/
theorem not_leadsBack_underscore :
    selectedPlan (pressed (getProductsKeyboard blankLocale "main-1".toList [⟨"vpn_1m".toList, [], []⟩] none) 0) =
        some ("main-1".toList, "vpn".toList) ∧
      ¬ LeadsBack blankLocale [⟨"main-1".toList, "DE".toList⟩] [⟨"vpn_1m".toList, [], []⟩] ⟨0, by decide⟩ 0
        0 "main-1".toList
        "vpn_1m".toList := by
  have hread : selectedPlan
    (pressed (getProductsKeyboard blankLocale "main-1".toList [⟨"vpn_1m".toList, [], []⟩] none) 0) =
      some ("main-1".toList, "vpn".toList) := by decide
  refine ⟨hread, fun h => ?_⟩
  rw [LeadsBack, hread] at h
  exact absurd h.2.1 (by decide)

end AmneziaVpnBot.Bot
