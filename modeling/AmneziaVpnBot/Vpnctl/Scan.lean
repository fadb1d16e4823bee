import AmneziaVpnBot.Vpnctl.PeerBlock

/-! The addresses a text lists, read in two ways: by the scan of `used_addresses`, whose white
space runs over line ends, and line by line. In a text that has every `AllowedIPs` on one line
with its IPv4 address both ways find the same. -/

namespace AmneziaVpnBot.Vpnctl

open Text

/-! ### The scan and the lines -/

/-- The line does not break off between `AllowedIPs` and its value. -/
def isComplete (line : Text) : Bool :=
  (afterPrefix allowedIpsKey (line.dropWhile isSpace)).all fun rest =>
    !(strip rest).isEmpty && (match rest.dropWhile isSpace with
      | '=' :: value => !(strip value).isEmpty
      | _ => true)

/-- What the scan takes of a line. -/
def scannedValue (line : Text) : Option Text :=
  (matchKey allowedIpsKey line).map fun value => (value.dropWhile isSpace).takeWhile (· ≠ '\n')

/-- `u` is the end of a line, and `t` is the text after it. -/
def EndsLine (u t : Text) : Prop := (∃ body, u = body ++ ['\n'] ∧ '\n' ∉ body) ∨ '\n' ∉ u ∧ t = []

theorem EndsLine.suffix {u v t : Text} (h : EndsLine u t) (hs : v <:+ u) (hne : v ≠ []) : EndsLine v t := by
  rcases h with ⟨body, rfl, hbody⟩ | ⟨hu, ht⟩
  · rcases List.suffix_concat_iff.mp hs with rfl | ⟨v', rfl, hv'⟩
    · exact absurd rfl hne
    · exact .inl ⟨v', rfl, fun h => hbody (hv'.subset h)⟩
  · exact .inr ⟨fun h => hu (hs.subset h), ht⟩

theorem takeWhile_of_not_mem {u : Text} (h : '\n' ∉ u) : u.takeWhile (· ≠ '\n') = u := by
  refine List.takeWhile_eq_self_iff.mpr fun c hc => decide_eq_true ?_
  rintro rfl
  exact h hc

theorem dropWhile_of_not_mem {u : Text} (h : '\n' ∉ u) : u.dropWhile (· ≠ '\n') = [] := by
  refine List.dropWhile_eq_nil_iff.mpr fun c hc => decide_eq_true ?_
  rintro rfl
  exact h hc

theorem EndsLine.afterLine {u t : Text} (h : EndsLine u t) : afterLine (u ++ t) = t := by
  rcases h with ⟨body, rfl, hbody⟩ | ⟨hu, rfl⟩
  · rw [Vpnctl.afterLine, List.append_assoc, List.dropWhile_append, dropWhile_of_not_mem hbody]
    rfl
  · rw [Vpnctl.afterLine, List.append_nil, dropWhile_of_not_mem hu]
    rfl

theorem EndsLine.takeWhile {u t : Text} (h : EndsLine u t) :
    (u ++ t).takeWhile (· ≠ '\n') = u.takeWhile (· ≠ '\n') := by
  rcases h with ⟨body, rfl, hbody⟩ | ⟨-, rfl⟩
  · have hall : ∀ c ∈ body, decide (c ≠ '\n') = true := by
      intro c hc
      refine decide_eq_true ?_
      rintro rfl
      exact hbody hc
    rw [List.append_assoc, List.takeWhile_append_of_pos hall, List.takeWhile_append_of_pos hall]
    rfl
  · rw [List.append_nil]

theorem EndsLine.mem {u t : Text} (h : EndsLine u t) : '\n' ∈ u ∨ t = [] := by
  rcases h with ⟨body, rfl, -⟩ | ⟨-, ht⟩
  · exact .inl (by simp)
  · exact .inr ht

theorem afterPrefix_append {key : Text} (hkey : '\n' ∉ key) {u t : Text} (h : '\n' ∈ u ∨ t = []) :
    afterPrefix key (u ++ t) = (afterPrefix key u).map (· ++ t) := by
  induction key generalizing u with
  | nil => rfl
  | cons k ks ih =>
    cases u with
    | nil =>
      rw [h.resolve_left (by simp)]
      rfl
    | cons c cs =>
      simp only [List.cons_append, afterPrefix]
      split_ifs with hk
      · refine ih (fun hmem => hkey (List.mem_cons_of_mem _ hmem)) (h.imp_left fun hmem => ?_)
        refine (List.mem_cons.mp hmem).resolve_left fun hc => hkey ?_
        rw [hk, ← hc]
        exact List.mem_cons_self
      · rfl

theorem dropWhile_append_of_strip {u : Text} (h : strip u ≠ []) (t : Text) :
    (u ++ t).dropWhile isSpace = u.dropWhile isSpace ++ t := by
  rw [List.dropWhile_append, if_neg]
  intro hempty
  exact h (strip_eq_nil.mpr (List.dropWhile_eq_nil_iff.mp (List.isEmpty_iff.mp hempty)))

/-- The text after a complete line does not change what the scan finds in the line. -/
theorem matchKey_append {l t : Text} (hl : EndsLine l t) (hblank : strip l ≠ []) (hc : isComplete l = true) :
    matchKey allowedIpsKey (l ++ t) = (matchKey allowedIpsKey l).map (· ++ t) ∧
      ∀ value, matchKey allowedIpsKey l = some value → strip value ≠ [] ∧ value <:+ l := by
  have hsuffix : l.dropWhile isSpace <:+ l := List.dropWhile_suffix _
  have hend := hl.suffix hsuffix (dropWhile_ne_nil hblank)
  rw [matchKey, matchKey, dropWhile_append_of_strip hblank, afterPrefix_append (by decide) hend.mem]
  rw [isComplete] at hc
  cases hrest : afterPrefix allowedIpsKey (l.dropWhile isSpace) with
  | none =>
    refine ⟨rfl, fun value h => ?_⟩
    cases h
  | some rest =>
    rw [hrest, Option.all_some, Bool.and_eq_true, Bool.not_eq_true', List.isEmpty_eq_false_iff] at hc
    have hrestSuffix : rest.dropWhile isSpace <:+ l := by
      refine (List.dropWhile_suffix _).trans (List.IsSuffix.trans ⟨allowedIpsKey, ?_⟩ hsuffix)
      exact (afterPrefix_eq_some hrest).symm
    simp only [Option.map_some, Option.bind_some, dropWhile_append_of_strip hc.1]
    obtain ⟨c, cs, hcs⟩ := List.exists_cons_of_ne_nil (dropWhile_ne_nil hc.1)
    rw [hcs] at hc hrestSuffix ⊢
    by_cases heq : c = '='
    · subst heq
      refine ⟨rfl, fun value hvalue => ?_⟩
      obtain rfl := Option.some.inj hvalue
      refine ⟨by simpa using hc.2, (List.suffix_cons _ _).trans hrestSuffix⟩
    · rw [List.cons_append]
      constructor
      · split
        · rename_i h
          exact absurd (List.cons.inj h).1 heq
        · split
          · rename_i h
            exact absurd (List.cons.inj h).1 heq
          · rfl
      · intro value hvalue
        split at hvalue
        · rename_i h
          exact absurd (List.cons.inj h).1 heq
        · cases hvalue

theorem allowedIps_nil (fuel : ℕ) : allowedIps fuel [] = [] := by
  induction fuel with
  | zero => rfl
  | succ fuel ih => exact ih

theorem endsLine_of_areLines {l : Text} {ls : List Text} (h : AreLines (l :: ls)) (hplain : Plain l) :
    EndsLine l ls.flatten := by
  obtain ⟨hbody, hchomp⟩ := chomp_eq (h.1 l List.mem_cons_self) hplain
  have hnl : '\n' ∉ chomp l := fun hmem => by simpa using hbody _ hmem
  rcases hchomp with hl | hl
  · cases ls with
    | nil => exact .inr ⟨by rw [hl]; exact hnl, rfl⟩
    | cons m ls =>
      -- a line that another follows is ended, which this one is not
      have hended : Ended l := List.rel_of_pairwise_cons h.2 List.mem_cons_self
      have hne := (h.1 l List.mem_cons_self).1
      have hlast := hended _ (List.getLast?_eq_some_getLast hne)
      have hall : ∀ c ∈ l, isBreak c = false := by
        rw [hl]
        exact hbody
      rw [hall _ (List.getLast_mem hne)] at hlast
      cases hlast
  · exact .inl ⟨_, hl, hnl⟩

theorem scannedValue_blank {l : Text} (h : strip l = []) : scannedValue l = none := by
  rw [scannedValue, matchKey, List.dropWhile_eq_nil_iff.mpr (strip_eq_nil.mp h)]
  rfl

/-- The scan goes over complete lines one by one. -/
theorem allowedIps_flatten {ls : List Text} (h : AreLines ls) (hplain : ∀ l ∈ ls, Plain l)
    (hc : ∀ l ∈ ls, isComplete l = true) {fuel : ℕ} (hfuel : ls.length ≤ fuel) :
    allowedIps fuel ls.flatten = ls.filterMap scannedValue := by
  induction ls generalizing fuel with
  | nil => exact allowedIps_nil fuel
  | cons l ls ih =>
    obtain ⟨fuel, rfl⟩ : ∃ f, fuel = f + 1 := ⟨fuel - 1, by rw [List.length_cons] at hfuel; omega⟩
    have hfuel : ls.length ≤ fuel := by simpa using hfuel
    have hls : AreLines ls := ⟨fun m hm => h.1 m (List.mem_cons_of_mem _ hm), h.2.of_cons⟩
    have ih := fun {f} => @ih hls (fun m hm => hplain m (List.mem_cons_of_mem _ hm))
      (fun m hm => hc m (List.mem_cons_of_mem _ hm)) f
    have hend := endsLine_of_areLines h (hplain l List.mem_cons_self)
    rw [List.flatten_cons, List.filterMap_cons, allowedIps]
    by_cases hblank : strip l = []
    · -- the scan takes the blank line for white space in front of the next one
      have hskip : matchKey allowedIpsKey (l ++ ls.flatten) = matchKey allowedIpsKey ls.flatten := by
        rw [matchKey, matchKey, List.dropWhile_append_of_pos (strip_eq_nil.mp hblank)]
      rw [scannedValue_blank hblank, hskip, hend.afterLine]
      cases hm : matchKey allowedIpsKey ls.flatten with
      | none => exact ih hfuel
      | some rest =>
        have hnext := ih (f := fuel + 1) (by omega)
        rw [allowedIps, hm] at hnext
        exact hnext
    · obtain ⟨happend, hvalue⟩ := matchKey_append hend hblank (hc l List.mem_cons_self)
      rw [happend, scannedValue]
      cases hm : matchKey allowedIpsKey l with
      | none =>
        simp only [Option.map_none, hend.afterLine]
        exact ih hfuel
      | some value =>
        obtain ⟨hne, hsuffix⟩ := hvalue value hm
        have hvend := hend.suffix ((List.dropWhile_suffix _).trans hsuffix) (dropWhile_ne_nil hne)
        simp only [Option.map_some, dropWhile_append_of_strip hne, hvend.afterLine, hvend.takeWhile, ih hfuel]

/-! ### Values -/

/-- The values of the text's `AllowedIPs` lines. -/
def blockValues (t : Text) : List Text := (splitlines t).filterMap (lineValue allowedIpsKey)

/-- The address of a value that lists one IPv4 address and no more. -/
def v4Of (value : Text) : Option ℕ :=
  if ',' ∈ value then none
  else match parseInterface (strip value) with
    | some ⟨.v4 n, 32⟩ => some n
    | _ => none

theorem v4Of_eq_some {value : Text} {n : ℕ} (h : v4Of value = some n) :
    ',' ∉ value ∧ parseInterface (strip value) = some ⟨.v4 n, 32⟩ := by
  unfold v4Of at h
  split_ifs at h with hcomma
  split at h
  · rename_i n' hparse
    obtain rfl := Option.some.inj h
    exact ⟨hcomma, hparse⟩
  · cases h

/-- Every `AllowedIPs` of the text is on one line with one IPv4 address, and only newlines end lines. -/
structure Tidy (t : Text) : Prop where
  plain : Plain t
  complete : ∀ l ∈ splitlines t, isComplete l = true
  v4 : ∀ value ∈ blockValues t, (v4Of value).isSome = true

theorem mem_strip {t : Text} {c : Char} (hc : c ∈ t) (hspace : isSpace c = false) : c ∈ strip t := by
  have hdrop : c ∈ t.dropWhile isSpace := by
    have hmem := hc
    rw [← List.takeWhile_append_dropWhile (p := isSpace) (l := t), List.mem_append] at hmem
    refine hmem.resolve_left fun h => ?_
    rw [List.mem_takeWhile_imp h] at hspace
    cases hspace
  rw [strip, List.rdropWhile, List.mem_reverse]
  have hrev : c ∈ (t.dropWhile isSpace).reverse := List.mem_reverse.mpr hdrop
  rw [← List.takeWhile_append_dropWhile (p := isSpace) (l := (t.dropWhile isSpace).reverse), List.mem_append] at hrev
  refine hrev.resolve_left fun h => ?_
  rw [List.mem_takeWhile_imp h] at hspace
  cases hspace

theorem strip_dropWhile (t : Text) : strip (t.dropWhile isSpace) = strip t := by
  rw [strip, strip, List.dropWhile_idempotent]

/-- The scan and the line agree on what a complete line lists. -/
theorem scanned_of_lineValue {l t : Text} (hl : EndsLine l t) (hc : isComplete l = true) :
    (scannedValue l = none ∧ lineValue allowedIpsKey l = none) ∨
      ∃ scanned value, scannedValue l = some scanned ∧ lineValue allowedIpsKey l = some value ∧
        strip scanned = value ∧ (',' ∈ scanned → ',' ∈ value) := by
  by_cases hblank : strip l = []
  · refine .inl ⟨scannedValue_blank hblank, ?_⟩
    rw [lineValue, matchKey, List.dropWhile_eq_nil_iff.mpr (strip_eq_nil.mp hblank)]
    rfl
  rw [scannedValue, lineValue]
  obtain ⟨-, hvalue⟩ := matchKey_append hl hblank hc
  cases hm : matchKey allowedIpsKey l with
  | none => exact .inl ⟨rfl, rfl⟩
  | some value =>
    obtain ⟨hne, hsuffix⟩ := hvalue value hm
    have hend := hl.suffix ((List.dropWhile_suffix _).trans hsuffix) (dropWhile_ne_nil hne)
    have hstrip : strip ((value.dropWhile isSpace).takeWhile (· ≠ '\n')) = strip value := by
      rw [← strip_dropWhile value]
      rcases hend with ⟨body, hbody, hnl⟩ | ⟨hnl, -⟩
      · rw [hbody, strip_newline, List.takeWhile_append_of_pos, List.takeWhile_cons_of_neg (by simp), List.append_nil]
        intro c hc
        refine decide_eq_true ?_
        rintro rfl
        exact hnl hc
      · rw [takeWhile_of_not_mem hnl]
    refine .inr ⟨_, strip value, rfl, ?_, hstrip, fun hcomma => ?_⟩
    · rw [Option.bind_some, captured, if_pos hne]
    · rw [← hstrip]
      exact mem_strip hcomma (by decide)

theorem listedIps_of_v4Of {scanned : Text} {n : ℕ} (hcomma : ',' ∉ scanned)
    (h : parseInterface (strip scanned) = some ⟨.v4 n, 32⟩) : listedIps scanned = [.v4 n] := by
  rw [listedIps, List.splitOn_eq_singleton hcomma, List.filterMap_cons, h]
  rfl

theorem endsLine_nil {l : Text} (hline : IsLine l) (hplain : Plain l) : EndsLine l [] := by
  have h := endsLine_of_areLines (l := l) ⟨by simpa using hline, List.pairwise_singleton _ _⟩ hplain
  exact h

theorem length_splitlines_le (t : Text) : (splitlines t).length ≤ t.length := by
  induction t with
  | nil => exact le_rfl
  | cons c cs ih =>
    rw [splitlines]
    split
    · simpa using ih
    · cases hcs : splitlines cs with
      | nil => simp [consFirst]
      | cons l ls =>
        rw [hcs] at ih
        simp only [consFirst, List.length_cons] at ih ⊢
        omega

theorem Tidy.plain_line {t l : Text} (h : Tidy t) (hl : l ∈ splitlines t) : Plain l := fun c hc =>
  h.plain c (by rw [← flatten_splitlines t]; exact List.mem_flatten.mpr ⟨l, hl, hc⟩)

/-- The addresses in use that the scan finds are those of the lines. -/
theorem Tidy.mem_addresses {t : Text} (h : Tidy t) {a : Ip} :
    a ∈ addresses t ↔ ∃ value ∈ blockValues t, ∃ n, v4Of value = some n ∧ a = .v4 n := by
  have hscan :=
    allowedIps_flatten (areLines_splitlines t) (fun l hl => h.plain_line hl) h.complete (length_splitlines_le t)
  rw [flatten_splitlines] at hscan
  have hline : ∀ l ∈ splitlines t, (scannedValue l = none ∧ lineValue allowedIpsKey l = none) ∨
      ∃ scanned value n, scannedValue l = some scanned ∧ lineValue allowedIpsKey l = some value ∧ v4Of value = some n ∧
        listedIps scanned = [.v4 n] := by
    intro l hl
    have hend := endsLine_nil ((areLines_splitlines t).1 l hl) (h.plain_line hl)
    rcases scanned_of_lineValue hend (h.complete l hl) with hnone | ⟨scanned, value, hscanned, hvalue, hstrip, hcomma⟩
    · exact .inl hnone
    · obtain ⟨n, hn⟩ := Option.isSome_iff_exists.mp (h.v4 value (List.mem_filterMap.mpr ⟨l, hl, hvalue⟩))
      obtain ⟨hfree, hparse⟩ := v4Of_eq_some hn
      rw [← hstrip, strip_strip] at hparse
      exact .inr ⟨scanned, value, n, hscanned, hvalue, hn, listedIps_of_v4Of (fun hc => hfree (hcomma hc)) hparse⟩
  rw [addresses, hscan, List.mem_flatMap]
  constructor
  · rintro ⟨scanned, hmem, ha⟩
    obtain ⟨l, hl, hscanned⟩ := List.mem_filterMap.mp hmem
    rcases hline l hl with ⟨hnone, -⟩ | ⟨scanned', value, n, hscanned', hvalue, hn, hlist⟩
    · rw [hnone] at hscanned
      cases hscanned
    · obtain rfl : scanned' = scanned := Option.some.inj (hscanned'.symm.trans hscanned)
      rw [hlist, List.mem_singleton] at ha
      exact ⟨value, List.mem_filterMap.mpr ⟨l, hl, hvalue⟩, n, hn, ha⟩
  · rintro ⟨value, hmem, n, hn, rfl⟩
    obtain ⟨l, hl, hvalue⟩ := List.mem_filterMap.mp hmem
    rcases hline l hl with ⟨-, hnone⟩ | ⟨scanned, value', n', hscanned, hvalue', hn', hlist⟩
    · rw [hnone] at hvalue
      cases hvalue
    · obtain rfl : value' = value := Option.some.inj (hvalue'.symm.trans hvalue)
      obtain rfl : n' = n := Option.some.inj (hn'.symm.trans hn)
      exact ⟨scanned, List.mem_filterMap.mpr ⟨l, hl, hscanned⟩, by rw [hlist]; exact List.mem_singleton_self _⟩

/-! ### Edits -/

theorem filterMap_splitlines_newline {β : Type*} {f : Text → Option β} (hf : ∀ l, f (l ++ ['\n']) = f l)
    (hblank : f [] = none) (t : Text) : (splitlines (t ++ ['\n'])).filterMap f = (splitlines t).filterMap f := by
  have hnl : f ['\n'] = none := (hf []).trans hblank
  rcases splitlines_newline t with h | ⟨ls, l, -, hl, h⟩
  · rw [h, List.filterMap_append, List.filterMap_cons, hnl]
    simp
  · rw [h, hl, List.filterMap_append, List.filterMap_append, List.filterMap_cons, List.filterMap_cons, hf]

theorem blockValues_newline (t : Text) : blockValues (t ++ ['\n']) = blockValues t :=
  filterMap_splitlines_newline (lineValue_newline (by decide)) (by decide) t

theorem blockValues_rstripNl (t : Text) : blockValues (rstripNl t) = blockValues t :=
  eq_rstripNl blockValues blockValues_newline t

theorem blockValues_append {u : Text} (h : Ended u) (v : Text) :
    blockValues (u ++ v) = blockValues u ++ blockValues v := by
  rw [blockValues, splitlines_append h, List.filterMap_append]
  rfl

theorem isComplete_newline (l : Text) : isComplete (l ++ ['\n']) = isComplete l := by
  rw [isComplete, isComplete, dropWhile_space isSpace_newline]
  split_ifs with hl
  · rw [hl]
  · rw [afterPrefix_space (by decide) isSpace_newline]
    cases afterPrefix allowedIpsKey (l.dropWhile isSpace) with
    | none => rfl
    | some rest =>
      rw [Option.map_some, Option.all_some, Option.all_some, strip_newline, dropWhile_space isSpace_newline]
      split_ifs with hrest
      · rw [hrest]
      · obtain ⟨c, cs, hcs⟩ := List.exists_cons_of_ne_nil hrest
        rw [hcs]
        by_cases hc : c = '='
        · subst hc
          simp only [List.cons_append, strip_newline]
        · simp [hc]

theorem complete_newline (t : Text) :
    (∀ l ∈ splitlines (t ++ ['\n']), isComplete l = true) ↔ ∀ l ∈ splitlines t, isComplete l = true := by
  rcases splitlines_newline t with h | ⟨ls, l, -, hl, h⟩
  · rw [h, List.forall_mem_append]
    exact and_iff_left (by decide)
  · rw [h, hl, List.forall_mem_append, List.forall_mem_append, List.forall_mem_singleton, List.forall_mem_singleton,
      isComplete_newline]

theorem tidy_newline (t : Text) : Tidy (t ++ ['\n']) ↔ Tidy t := by
  constructor
  · exact fun h => ⟨(plain_newline t).mp h.plain, (complete_newline t).mp h.complete, blockValues_newline t ▸ h.v4⟩
  · exact fun h =>
      ⟨(plain_newline t).mpr h.plain, (complete_newline t).mpr h.complete, (blockValues_newline t).symm ▸ h.v4⟩

theorem tidy_rstripNl (t : Text) : Tidy (rstripNl t) ↔ Tidy t :=
  iff_of_eq (eq_rstripNl Tidy (fun t => propext (tidy_newline t)) t)

theorem Tidy.append {u v : Text} (hended : Ended u) (hu : Tidy u) (hv : Tidy v) : Tidy (u ++ v) where
  plain c hc := (List.mem_append.mp hc).elim (hu.plain c) (hv.plain c)
  complete := by
    rw [splitlines_append hended, List.forall_mem_append]
    exact ⟨hu.complete, hv.complete⟩
  v4 := by
    rw [blockValues_append hended, List.forall_mem_append]
    exact ⟨hu.v4, hv.v4⟩

/-- What is left when lines are dropped is still tidy. -/
theorem Tidy.sublist {t u : Text} (h : Tidy t) (hs : (splitlines u).Sublist (splitlines t)) : Tidy u where
  plain c hc := by
    rw [← flatten_splitlines u] at hc
    obtain ⟨l, hl, hc⟩ := List.mem_flatten.mp hc
    exact h.plain_line (hs.mem hl) c hc
  complete l hl := h.complete l (hs.mem hl)
  v4 value hvalue := h.v4 value ((hs.filterMap _).mem hvalue)

theorem splitlines_section {conf : Text} {s : Section} (h : s ∈ splitSections conf) : splitlines s.text = s.lines :=
  (mem_splitSections h).1

theorem splitlines_withoutPeer (conf name : Text) :
    splitlines (withoutPeer conf name) = ((splitSections conf).filter (!·.isPeer name)).flatMap Section.lines := by
  rw [splitlines_eq_sections, splitSections_withoutPeer]

theorem Tidy.withoutPeer {conf : Text} (h : Tidy conf) (name : Text) : Tidy (withoutPeer conf name) := by
  refine h.sublist ?_
  rw [splitlines_withoutPeer, splitlines_eq_sections conf]
  exact List.filter_sublist.flatMap _

theorem Tidy.section {conf : Text} (h : Tidy conf) {s : Section} (hs : s ∈ splitSections conf) : Tidy s.text := by
  refine h.sublist ?_
  rw [splitlines_section hs, splitlines_eq_sections conf]
  exact List.sublist_flatten_of_mem (List.mem_map_of_mem hs)

end AmneziaVpnBot.Vpnctl
