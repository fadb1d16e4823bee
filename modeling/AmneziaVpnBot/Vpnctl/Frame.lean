import AmneziaVpnBot.Vpnctl.PeerBlock

/-! Editing one client in a config and what it leaves alone. Dropping its blocks drops their lines
and no others, and the sections of the new text are the old ones without them. A block that is
added becomes the last section; of the sections before it only the last can change, and only by
newlines at its end. -/

namespace AmneziaVpnBot.Vpnctl

open Text

/-! ### Dropping -/

/-- The text without a client's blocks. -/
structure DropsOnly (text name : Text) : Prop where
  joined : (splitSections text).flatMap Section.text = text
  lines : splitlines text = (splitSections text).flatMap Section.lines
  kept : splitlines (withoutPeer text name) = ((splitSections text).filter (!·.isPeer name)).flatMap Section.lines
  sections : splitSections (withoutPeer text name) = (splitSections text).filter (!·.isPeer name)
  gone : findPeer (withoutPeer text name) name = none
  others : ∀ other ≠ name, findPeer (withoutPeer text name) other = findPeer text other
  untouched : (∀ s ∈ splitSections text, s.isPeer name = false) → withoutPeer text name = text

theorem isPeer_of_ne {name other : Text} (hne : other ≠ name) {s : Section} (h : s.isPeer other = true) :
    s.isPeer name = false := by
  simp only [Section.isPeer, Bool.and_eq_true, beq_iff_eq] at h
  simp [Section.isPeer, h.2, hne]

theorem dropsOnly (text name : Text) : DropsOnly text name := by
  have hsections := splitSections_withoutPeer text name
  refine ⟨splitSections_text text, splitlines_eq_sections text, ?_, hsections, ?_, ?_, ?_⟩
  · rw [splitlines_eq_sections, hsections]
  · rw [findPeer, hsections, Option.map_eq_none_iff, List.find?_eq_none]
    intro s hs
    simpa using (List.mem_filter.mp hs).2
  · intro other hne
    rw [findPeer, hsections, List.find?_filter, findPeer]
    refine congrArg _ (List.find?_congr fun s _ => ?_)
    cases h : s.isPeer other with
    | false => simp
    | true => simp [isPeer_of_ne hne h]
  · intro hnone
    rw [withoutPeer, List.filter_eq_self.mpr fun s hs => by simp [hnone s hs], splitSections_text]

/-! ### Adding -/

/-- The same sections, but for newlines at the end of the last one. -/
def LastGrown (ss ts : List Section) : Prop :=
  ∃ front a b, ss = front ++ [a] ∧ ts = front ++ [b] ∧ a.header = b.header ∧ rstripNl a.text = rstripNl b.text

theorem LastGrown.symm {ss ts : List Section} (h : LastGrown ss ts) : LastGrown ts ss := by
  obtain ⟨front, a, b, hs, ht, hheader, htext⟩ := h
  exact ⟨front, b, a, ht, hs, hheader.symm, htext.symm⟩

theorem LastGrown.trans {ss ts us : List Section} (h : LastGrown ss ts) (h' : LastGrown ts us) : LastGrown ss us := by
  obtain ⟨front, a, b, hs, ht, hheader, htext⟩ := h
  obtain ⟨front', b', c, ht', hu, hheader', htext'⟩ := h'
  rw [ht] at ht'
  obtain ⟨rfl, hb⟩ := List.append_inj' ht' rfl
  obtain rfl := List.singleton_inj.mp hb
  exact ⟨front, a, c, hs, hu, hheader.trans hheader', htext.trans htext'⟩

theorem rstripNl_text_line (h : Option Text) (pre : List Text) (l : Text) :
    rstripNl (Section.text ⟨h, pre ++ [l]⟩) = rstripNl (Section.text ⟨h, pre ++ [l ++ ['\n']]⟩) := by
  simp only [Section.text, List.flatten_append, List.flatten_singleton, ← List.append_assoc, rstripNl_newline]

theorem rstripNl_text_blank (h : Option Text) (ls : List Text) :
    rstripNl (Section.text ⟨h, ls⟩) = rstripNl (Section.text ⟨h, ls ++ [['\n']]⟩) := by
  simp only [Section.text, List.flatten_append, List.flatten_singleton, rstripNl_newline]

/-- A blank line at the end belongs to the last section. -/
theorem lastGrown_blank {lines : List Text} (hne : lines ≠ []) :
    LastGrown (sectionsOf lines) (sectionsOf (lines ++ [['\n']])) := by
  have hplain : isHeader ['\n'] = false := by decide
  obtain ⟨pre, ss, rfl, hpre, hss⟩ := exists_sections lines
  rcases List.eq_nil_or_concat ss with rfl | ⟨ss, s, rfl⟩
  · have hpre' : ∀ l ∈ pre ++ [['\n']], isHeader l = false := by simpa [or_imp, forall_and] using ⟨hpre, hplain⟩
    have hold := sectionsOf_eq hpre hss
    have hnew := sectionsOf_eq hpre' hss
    simp only [List.flatMap_nil, List.append_nil, ne_eq] at hold hnew hne ⊢
    rw [hold, hnew]
    refine ⟨[], ⟨none, pre⟩, ⟨none, pre ++ [['\n']]⟩, ?_, ?_, rfl, rstripNl_text_blank none pre⟩
    · simp [preamble, hne]
    · simp [preamble]
  · rw [List.concat_eq_append] at hss ⊢
    obtain ⟨line, rest, rfl, hline, hrest⟩ := hss s (by simp)
    have hss' : ∀ t ∈ ss ++ [⟨some (strip line), line :: (rest ++ [['\n']])⟩], Section.Headed t := by
      intro t ht
      rcases List.mem_append.mp ht with ht | ht
      · exact hss t (List.mem_append_left _ ht)
      · rw [List.mem_singleton.mp ht]
        exact ⟨line, rest ++ [['\n']], rfl, hline, by simpa [or_imp, forall_and] using ⟨hrest, hplain⟩⟩
    have hold := sectionsOf_eq hpre hss
    have hnew := sectionsOf_eq hpre hss'
    have hlines : pre ++ (ss ++ [Section.mk (some (strip line)) (line :: (rest ++ [['\n']]))]).flatMap Section.lines =
        pre ++ (ss ++ [Section.mk (some (strip line)) (line :: rest)]).flatMap Section.lines ++ [['\n']] := by
      simp [List.flatMap_append]
    rw [hlines] at hnew
    rw [hold, hnew]
    exact ⟨preamble pre ++ ss, ⟨some (strip line), line :: rest⟩, ⟨some (strip line), line :: (rest ++ [['\n']])⟩,
      (List.append_assoc ..).symm, (List.append_assoc ..).symm, rfl, rstripNl_text_blank _ (line :: rest)⟩

/-- A newline can also end the last line. -/
theorem lastGrown_ended {ls : List Text} {l : Text} :
    LastGrown (sectionsOf (ls ++ [l])) (sectionsOf (ls ++ [l ++ ['\n']])) := by
  obtain ⟨pre, ss, hlines, hpre, hss⟩ := exists_sections ls
  by_cases hheader : isHeader l = true
  · -- the line is a section of its own
    have hgrown : ∀ m : Text, isHeader m = true →
        sectionsOf (ls ++ [m]) = preamble pre ++ ss ++ [⟨some (strip m), [m]⟩] := by
      intro m hm
      have hss' : ∀ s ∈ ss ++ [Section.mk (some (strip m)) [m]], s.Headed := by
        intro s hs
        rcases List.mem_append.mp hs with hs | hs
        · exact hss s hs
        · rw [List.mem_singleton.mp hs]
          exact ⟨m, [], rfl, hm, by simp⟩
      have hsections := sectionsOf_eq hpre hss'
      rwa [List.flatMap_append, ← List.append_assoc, ← hlines, List.flatMap_singleton, ← List.append_assoc] at hsections
    rw [hgrown l hheader, hgrown (l ++ ['\n']) (by rwa [isHeader_newline])]
    exact ⟨_, _, _, rfl, rfl, by rw [strip_newline], rstripNl_text_line _ [] l⟩
  · -- it belongs to the section before it
    rw [Bool.not_eq_true] at hheader
    have hended : isHeader (l ++ ['\n']) = false := by rwa [isHeader_newline]
    rcases List.eq_nil_or_concat ss with rfl | ⟨ss, s, rfl⟩
    · have hgrown : ∀ m : Text, isHeader m = false → sectionsOf (ls ++ [m]) = [] ++ [⟨none, pre ++ [m]⟩] := by
        intro m hm
        have hpre' : ∀ k ∈ pre ++ [m], isHeader k = false := by simpa [or_imp, forall_and] using ⟨hpre, hm⟩
        have hsections := sectionsOf_eq hpre' hss
        rw [hlines]
        simpa [preamble] using hsections
      rw [hgrown l hheader, hgrown _ hended]
      exact ⟨_, _, _, rfl, rfl, rfl, rstripNl_text_line none pre l⟩
    · rw [List.concat_eq_append] at hss hlines
      obtain ⟨line, rest, rfl, hline, hrest⟩ := hss s (by simp)
      have hgrown : ∀ m : Text, isHeader m = false →
          sectionsOf (ls ++ [m]) = preamble pre ++ ss ++ [⟨some (strip line), (line :: rest) ++ [m]⟩] := by
        intro m hm
        have hss' : ∀ s ∈ ss ++ [Section.mk (some (strip line)) ((line :: rest) ++ [m])], s.Headed := by
          intro s hs
          rcases List.mem_append.mp hs with hs | hs
          · exact hss s (List.mem_append_left _ hs)
          · rw [List.mem_singleton.mp hs]
            exact ⟨line, rest ++ [m], rfl, hline, by simpa [or_imp, forall_and] using ⟨hrest, hm⟩⟩
        have hsections := sectionsOf_eq hpre hss'
        rw [hlines]
        simpa [List.flatMap_append] using hsections
      rw [hgrown l hheader, hgrown _ hended]
      exact ⟨_, _, _, rfl, rfl, rfl, rstripNl_text_line _ (line :: rest) l⟩

theorem lastGrown_newline {t : Text} (hne : t ≠ []) : LastGrown (splitSections t) (splitSections (t ++ ['\n'])) := by
  rw [splitSections, splitSections]
  rcases splitlines_newline t with h | ⟨ls, l, -, hl, h⟩
  · rw [h]
    exact lastGrown_blank (splitlines_ne_nil hne)
  · rw [h, hl]
    exact lastGrown_ended

/-- What `conf.rstrip("\n") + "\n\n"` does to the sections. -/
theorem lastGrown_blankLine {t : Text} (hne : t ≠ []) :
    LastGrown (splitSections t) (splitSections (rstripNl t ++ ['\n'] ++ ['\n'])) := by
  have hgrow : ∀ u : Text, u ≠ [] → LastGrown (splitSections u) (splitSections (u ++ ['\n'] ++ ['\n'])) := fun u hu =>
    (lastGrown_newline hu).trans (lastGrown_newline (by simp))
  induction t using List.reverseRecOn with
  | nil => contradiction
  | append_singleton t c ih =>
    by_cases hc : c = '\n'
    · rw [hc, rstripNl_newline]
      by_cases ht : t = []
      · rw [ht]
        exact lastGrown_newline (List.cons_ne_nil _ _)
      · exact (lastGrown_newline ht).symm.trans (ih ht)
    · rw [rstripNl_concat hc]
      exact hgrow _ (by simp)

/-- The text is one `[Peer]` section named so. -/
def IsBlock (name block : Text) : Prop :=
  ∃ lines, splitSections block = [⟨some peerHeader, lines⟩] ∧ peerName lines = some name

/-- The text with a block of the client at its end. -/
structure AddsOnly (text name block : Text) : Prop where
  found : findPeer (addBlock text block) name = some (block, blockValue publicKey block)
  last : ∃ before, splitSections (addBlock text block) = before ++ [⟨some peerHeader, splitlines block⟩] ∧
    before.length = (splitSections text).length + if text = [] then 1 else 0
  /-- Only the last of the old sections changes, and only by newlines at its end. -/
  earlier : ∀ (i : ℕ) (s : Section), (splitSections text)[i]? = some s →
    ∃ t, (splitSections (addBlock text block))[i]? = some t ∧ t.header = s.header ∧ rstripNl t.text = rstripNl s.text ∧
      (i + 1 < (splitSections text).length → t = s)

theorem IsBlock.lines {name block : Text} (h : IsBlock name block) :
    splitSections block = [⟨some peerHeader, splitlines block⟩] ∧ peerName (splitlines block) = some name := by
  obtain ⟨lines, hsections, hname⟩ := h
  obtain rfl : splitlines block = lines := by rw [splitlines_eq_sections, hsections, List.flatMap_singleton]
  exact ⟨hsections, hname⟩

theorem IsBlock.startsWithHeader {name block : Text} (h : IsBlock name block) : StartsWithHeader block := by
  obtain ⟨hsections, -⟩ := h.lines
  have hmem : (⟨some peerHeader, splitlines block⟩ : Section) ∈ splitSections block := by simp [hsections]
  obtain ⟨htext, hheaded⟩ := mem_splitSections hmem
  have hstart := (hheaded (by simp)).1.startsWithHeader htext
  simpa [Section.text] using hstart

theorem addBlock_eq (text block : Text) : addBlock text block = rstripNl text ++ ['\n'] ++ ['\n'] ++ block := by
  simp [addBlock]

/-- No section is the client's, judged by what does not change with newlines. -/
theorem no_peer_iff (text name : Text) :
    (∀ s ∈ splitSections text, s.isPeer name = false) ↔ ∀ c ∈ contents text, isBlockOf name c = false := by
  constructor
  · intro h c hc
    obtain ⟨s, hs, hcontent⟩ := List.mem_filterMap.mp hc
    have hs' := h s hs
    rw [Section.isPeer_eq hs, hcontent] at hs'
    exact hs'
  · intro h s hs
    rw [Section.isPeer_eq hs]
    cases hcontent : s.content with
    | none => rfl
    | some c => exact h c (List.mem_filterMap.mpr ⟨s, hs, hcontent⟩)

theorem addsOnly {text name block : Text} (hnone : ∀ s ∈ splitSections text, s.isPeer name = false)
    (h : IsBlock name block) :
    AddsOnly text name block := by
  have hended : Ended (rstripNl text ++ ['\n'] ++ ['\n']) := ended_concat.mpr (by decide)
  obtain ⟨hsections, hname⟩ := h.lines
  have hsplit : splitSections (addBlock text block) =
      splitSections (rstripNl text ++ ['\n'] ++ ['\n']) ++ [⟨some peerHeader, splitlines block⟩] := by
    rw [addBlock_eq, splitSections_append hended h.startsWithHeader, hsections]
  have hcontents : contents (rstripNl text ++ ['\n'] ++ ['\n']) = contents text := by
    rw [contents_newline, contents_newline, contents_rstripNl]
  refine ⟨?_, ?_, ?_⟩
  · have hold := (no_peer_iff (rstripNl text ++ ['\n'] ++ ['\n']) name).mpr (by
      rw [hcontents]
      exact (no_peer_iff text name).mp hnone)
    have hnew : Section.isPeer name ⟨some peerHeader, splitlines block⟩ = true := by simp [Section.isPeer, hname]
    rw [findPeer, hsplit, List.find?_append, List.find?_eq_none.mpr fun s hs => by simp [hold s hs], Option.none_or,
      List.find?_cons_of_pos hnew, Option.map_some, Section.text, flatten_splitlines]
    rfl
  · refine ⟨_, hsplit, ?_⟩
    by_cases hne : text = []
    · rw [if_pos hne, hne]
      decide
    · obtain ⟨front, a, b, ha, hb, -⟩ := lastGrown_blankLine hne
      rw [ha, hb, if_neg hne, List.length_append, List.length_append]
      rfl
  · intro i s hi
    have hne : text ≠ [] := by
      rintro rfl
      cases hi
    obtain ⟨front, a, b, ha, hb, hheader, htext⟩ := lastGrown_blankLine hne
    rw [hsplit, hb]
    rw [ha] at hi ⊢
    by_cases hlt : i < front.length
    · rw [List.getElem?_append_left hlt] at hi
      exact ⟨s, by rw [List.getElem?_append_left (by simp; omega), List.getElem?_append_left hlt, hi], rfl,
        rfl, fun _ => rfl⟩
    · have hlen := (List.getElem?_eq_some_iff.mp hi).1
      rw [List.length_append, List.length_singleton] at hlen
      obtain rfl : i = front.length := by omega
      rw [List.getElem?_concat_length, Option.some.injEq] at hi
      refine ⟨b, by simp, ?_, ?_, fun hlast => ?_⟩
      · rw [← hi, hheader]
      · rw [← hi, htext]
      · rw [List.length_append, List.length_singleton] at hlast
        omega

/-- The block `create-peer` writes. -/
theorem Peer.isBlock (p : Peer) : IsBlock p.name p.block := by
  have hname := p.blockName_block
  rw [blockName, p.splitlines_block] at hname
  exact ⟨p.lines, p.splitSections_block, hname⟩

/-- The block `enable-peer` puts back: the saved one with one newline at its end. -/
theorem IsBlock.restored {name saved : Text} (h : IsBlock name saved) : IsBlock name (rstripNl saved ++ ['\n']) := by
  obtain ⟨hsections, hname⟩ := h.lines
  have hne : saved ≠ [] := by
    rintro rfl
    cases hsections
  obtain ⟨front, a, b, ha, hb, hheader, -⟩ :=
    (lastGrown_blankLine hne).trans (lastGrown_newline (t := rstripNl saved ++ ['\n']) (by simp)).symm
  rw [hsections] at ha
  obtain rfl : front = [] := List.eq_nil_of_length_eq_zero (by simpa using congrArg List.length ha)
  obtain rfl := List.singleton_inj.mp ha
  obtain ⟨header, lines⟩ := b
  obtain rfl : some peerHeader = header := hheader
  refine ⟨lines, hb, ?_⟩
  have hlines : splitlines (rstripNl saved ++ ['\n']) = lines := by rw [splitlines_eq_sections, hb]; simp
  rw [← hlines, ← blockName, blockName_newline, blockName_rstripNl]
  exact hname

/-- Editing one client leaves the rest of the config as it is. -/
theorem edits_only (text name : Text) :
    DropsOnly text name ∧ ((∀ s ∈ splitSections text, s.isPeer name = false) →
      (∀ p : Peer, p.name = name → AddsOnly text name p.block) ∧
        ∀ saved, IsBlock name saved → AddsOnly text name (rstripNl saved ++ ['\n'])) := by
  refine ⟨dropsOnly text name, fun hnone => ⟨?_, fun saved h => addsOnly hnone h.restored⟩⟩
  rintro p rfl
  exact addsOnly hnone p.isBlock

/-- A file edited by hand: a comment before the first section, two clients and no newline at the end. -/
def handEdited : Text := "# ours\n[Interface]\nPort = 1\n\n[Peer]\n#  ann \nA = 1\n [Peer] \n# bob\nA = 2".toList

theorem edits_only_handEdited :
    findPeer (withoutPeer handEdited "ann".toList) "ann".toList = none ∧
      AddsOnly handEdited "cat".toList "[Peer]\n# cat\n".toList := by
  have hblock : IsBlock "cat".toList "[Peer]\n# cat\n\n".toList :=
    ⟨["[Peer]\n".toList, "# cat\n".toList, ['\n']], by decide +kernel, by decide +kernel⟩
  have hadds := ((edits_only handEdited "cat".toList).2 (by decide +kernel)).2 _ hblock
  have htext : rstripNl "[Peer]\n# cat\n\n".toList ++ ['\n'] = "[Peer]\n# cat\n".toList := by decide +kernel
  rw [htext] at hadds
  exact ⟨(edits_only handEdited "ann".toList).1.gone, hadds⟩

end AmneziaVpnBot.Vpnctl
