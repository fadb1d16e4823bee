import AmneziaVpnBot.Vpnctl.Config
import Mathlib.Data.List.Find

/-! The sections of a config up to the newlines at their ends, which is all that the rest
of `vpnctl` can tell apart: blocks gain and lose blank lines whenever a client is turned
off and on, and no name and no setting changes with them. Adding a block adds it to the
list of blocks, removing a client filters the list. -/

namespace AmneziaVpnBot.Vpnctl

open Text

/-- The header of a section and its text without the newlines at the end. -/
def Section.content (s : Section) : Option (Text × Text) := s.header.map fun h => (h, rstripNl s.text)

def contents (conf : Text) : List (Text × Text) := (splitSections conf).filterMap Section.content

def bodies (header conf : Text) : List Text := ((contents conf).filter fun c => c.1 = header).map Prod.snd

/-- The clients' blocks in the config. -/
def blocks (conf : Text) : List Text := bodies peerHeader conf

def blockName (block : Text) : Option Text := peerName (splitlines block)

def blockValue (key block : Text) : Option Text := getValue (splitlines block) key

/-! ### A newline at the end -/

theorem isHeader_newline (l : Text) : isHeader (l ++ ['\n']) = isHeader l := by
  rw [isHeader, isHeader, strip_newline]

theorem sectionLoop_append (current : Section) (as : List Text) :
    ∃ (done : List Section) (last : Section), ∀ bs, sectionLoop current (as ++ bs) = done ++ sectionLoop last bs := by
  induction as generalizing current with
  | nil => exact ⟨[], current, fun _ => rfl⟩
  | cons a as ih =>
    by_cases h : isHeader a = true
    · obtain ⟨done, last, ih⟩ := ih ⟨some (strip a), [a]⟩
      exact ⟨current :: done, last, fun bs => by simp [sectionLoop, h, ih]⟩
    · obtain ⟨done, last, ih⟩ := ih ⟨current.header, current.lines ++ [a]⟩
      exact ⟨done, last, fun bs => by simp [sectionLoop, h, ih]⟩

/-- The part before the first header has no header to be listed under. -/
theorem contents_eq (conf : Text) :
    contents conf = (sectionLoop ⟨none, []⟩ (splitlines conf)).filterMap Section.content := by
  rw [contents, splitSections, sectionsOf, List.filterMap_filter]
  refine List.filterMap_congr fun s _ => ?_
  cases h : s.header <;> simp [Section.content, h]

theorem sectionLoop_singleton (current : Section) (l : Text) :
    sectionLoop current [l] =
      if isHeader l then [current, ⟨some (strip l), [l]⟩] else [⟨current.header, current.lines ++ [l]⟩] := rfl

theorem content_newline (h : Option Text) (pre : List Text) (l : Text) :
    Section.content ⟨h, pre ++ [l ++ ['\n']]⟩ = Section.content ⟨h, pre ++ [l]⟩ := by
  simp only [Section.content, Section.text, List.flatten_append, List.flatten_singleton, ← List.append_assoc,
    rstripNl_newline]

theorem content_blank (s : Section) : Section.content ⟨s.header, s.lines ++ [['\n']]⟩ = s.content := by
  simp only [Section.content, Section.text, List.flatten_append, List.flatten_singleton, rstripNl_newline]

@[simp] theorem contents_newline (conf : Text) : contents (conf ++ ['\n']) = contents conf := by
  rw [contents_eq, contents_eq]
  rcases splitlines_newline conf with h | ⟨ls, l, -, hl, h⟩
  · obtain ⟨done, last, hloop⟩ := sectionLoop_append ⟨none, []⟩ (splitlines conf)
    have hend := hloop []
    rw [List.append_nil] at hend
    rw [h, hend, hloop, List.filterMap_append, List.filterMap_append, sectionLoop_singleton,
      if_neg (by decide), List.filterMap_cons, content_blank]
    rfl
  · obtain ⟨done, last, hloop⟩ := sectionLoop_append ⟨none, []⟩ ls
    rw [h, hl, hloop, hloop, List.filterMap_append, List.filterMap_append, sectionLoop_singleton,
      sectionLoop_singleton, isHeader_newline, strip_newline]
    split
    · have hl := content_newline (some (strip l)) [] l
      simp only [List.nil_append] at hl
      simp only [List.filterMap_cons, hl]
    · simp only [List.filterMap_cons, content_newline]

@[simp] theorem contents_rstripNl (conf : Text) : contents (rstripNl conf) = contents conf :=
  eq_rstripNl contents contents_newline conf

@[simp] theorem blockName_newline (b : Text) : blockName (b ++ ['\n']) = blockName b := by
  rw [blockName, blockName]
  rcases splitlines_newline b with h | ⟨ls, l, -, hl, h⟩
  · rw [h]
    match splitlines b with
    | [] => rfl
    | [_] => rfl
    | _ :: _ :: _ => rfl
  · rw [h, hl]
    match ls with
    | [] => rfl
    | [_] => simp [peerName]
    | _ :: _ :: _ => rfl

theorem dropWhile_space {c : Char} (hc : isSpace c = true) (t : Text) :
    (t ++ [c]).dropWhile isSpace = if t.dropWhile isSpace = [] then [] else t.dropWhile isSpace ++ [c] := by
  rw [List.dropWhile_append]
  simp only [List.isEmpty_iff]
  split_ifs <;> simp [hc]

theorem afterPrefix_space {key : Text} (hkey : ∀ c ∈ key, isSpace c = false) {c : Char}
    (hc : isSpace c = true) (t : Text) :
    afterPrefix key (t ++ [c]) = (afterPrefix key t).map (· ++ [c]) := by
  induction key generalizing t with
  | nil => rfl
  | cons k ks ih =>
    cases t with
    | nil =>
      have hk : k ≠ c := fun h => by simpa [h, hc] using hkey k
      simp [afterPrefix, hk]
    | cons d ds =>
      simp only [List.cons_append, afterPrefix, ih fun d hd => hkey d (List.mem_cons_of_mem _ hd)]
      split_ifs <;> rfl

/-- White space at the end of a line belongs to what follows the `=`. -/
theorem matchKey_space {key : Text} (hkey : IsWord key) {c : Char} (hc : isSpace c = true) (l : Text) :
    matchKey key (l ++ [c]) = (matchKey key l).map (· ++ [c]) := by
  have heq : c ≠ '=' := by
    rintro rfl
    exact absurd hc (by decide)
  rw [matchKey, matchKey, dropWhile_space hc]
  split_ifs with h
  · obtain ⟨k, ks, hk⟩ := List.exists_cons_of_ne_nil hkey.1
    simp [h, hk, afterPrefix]
  · rw [afterPrefix_space hkey.2 hc, Option.bind_map, Option.map_bind]
    refine congrArg _ (funext fun rest => ?_)
    simp only [Function.comp_apply, dropWhile_space hc]
    split_ifs with hrest
    · simp [hrest]
    · obtain ⟨d, ds, hd⟩ := List.exists_cons_of_ne_nil hrest
      by_cases hd' : d = '='
      · simp [hd, hd']
      · rw [hd]
        simp [hd']

/-- What is captured is stripped, or blank. -/
theorem captured_eq_some {rest v : Text} (h : captured rest = some v) (hv : strip v ≠ []) :
    v = strip rest ∧ strip v = v := by
  rw [captured] at h
  split_ifs at h with hrest
  · obtain rfl := Option.some.inj h
    exact ⟨rfl, strip_strip rest⟩
  · obtain ⟨c, hc, rfl⟩ := Option.map_eq_some_iff.mp h
    have hmem := (List.mem_filter.mp (List.mem_of_getLast? hc)).1
    rw [not_not, strip_eq_nil] at hrest
    exact absurd (strip_eq_nil.mpr fun d hd => by rw [List.mem_singleton.mp hd]; exact hrest c hmem) hv

theorem captured_newline (rest : Text) : captured (rest ++ ['\n']) = captured rest := by
  simp [captured, strip_newline]

theorem lineValue_newline {key : Text} (hkey : IsWord key) (l : Text) :
    lineValue key (l ++ ['\n']) = lineValue key l := by
  rw [lineValue, lineValue, matchKey_space hkey isSpace_newline, Option.bind_map]
  exact congrArg _ (funext captured_newline)

theorem lineValue_rstripNl {key : Text} (hkey : IsWord key) (l : Text) : lineValue key (rstripNl l) = lineValue key l :=
  eq_rstripNl (lineValue key) (lineValue_newline hkey) l

theorem lineValue_blank {key : Text} (hkey : IsWord key) : lineValue key ['\n'] = none :=
  (lineValue_newline hkey []).trans (by
    obtain ⟨k, ks, hk⟩ := List.exists_cons_of_ne_nil hkey.1
    rw [hk]
    rfl)

theorem blockValue_newline {key : Text} (hkey : IsWord key) (b : Text) :
    blockValue key (b ++ ['\n']) = blockValue key b := by
  rw [blockValue, blockValue, getValue, getValue]
  rcases splitlines_newline b with h | ⟨ls, l, -, hl, h⟩
  · rw [h, List.findSome?_append, List.findSome?_cons, lineValue_blank hkey]
    simp
  · rw [h, hl, List.findSome?_append, List.findSome?_append, List.findSome?_cons, List.findSome?_cons,
      lineValue_newline hkey]

@[simp] theorem blockName_rstripNl (b : Text) : blockName (rstripNl b) = blockName b :=
  eq_rstripNl blockName blockName_newline b

theorem blockValue_rstripNl {key : Text} (hkey : IsWord key) (b : Text) :
    blockValue key (rstripNl b) = blockValue key b :=
  eq_rstripNl (blockValue key) (blockValue_newline hkey) b

/-! ### Reading and editing -/

/-- The text is one `[Peer]` section. -/
def IsPeer (text : Text) : Prop := StartsWithHeader text ∧ contents text = [(peerHeader, rstripNl text)]

theorem startsWithHeader_newline (t : Text) : StartsWithHeader (t ++ ['\n']) ↔ StartsWithHeader t := by
  rw [StartsWithHeader, StartsWithHeader]
  rcases splitlines_newline t with h | ⟨ls, l, -, hl, h⟩
  · rw [h]
    cases splitlines t with
    | nil => simp [isHeader, strip]
    | cons l ls => rfl
  · rw [h, hl]
    cases ls with
    | nil => simp [isHeader_newline]
    | cons l ls => rfl

theorem isPeer_newline (t : Text) : IsPeer (t ++ ['\n']) ↔ IsPeer t := by
  rw [IsPeer, IsPeer, startsWithHeader_newline, contents_newline, rstripNl_newline]

theorem isPeer_rstripNl (t : Text) : IsPeer (rstripNl t) ↔ IsPeer t :=
  iff_of_eq (eq_rstripNl IsPeer (fun t => propext (isPeer_newline t)) t)

theorem Section.Headed.startsWithHeader {s : Section} (h : s.Headed) (hs : splitlines s.text = s.lines) :
    StartsWithHeader s.text := by
  obtain ⟨line, rest, rfl, hline, -⟩ := h
  exact ⟨line, by rw [hs]; rfl, hline⟩

/-- A section that has a header is headed, and its text splits back into its lines. -/
theorem mem_splitSections {conf : Text} {s : Section} (h : s ∈ splitSections conf) :
    splitlines s.text = s.lines ∧ (s.header ≠ none → s.Headed ∧ splitSections s.text = [s]) := by
  obtain ⟨pre, ss, hlines, hpre, hss⟩ := exists_sections (splitlines conf)
  rw [splitSections, hlines, sectionsOf_eq hpre hss, List.mem_append] at h
  have hare := areLines_splitlines conf
  rw [hlines] at hare
  rcases h with h | h
  · rw [preamble] at h
    split at h
    · cases h
    · rw [List.mem_singleton.mp h]
      refine ⟨splitlines_flatten (hare.sublist (List.sublist_append_left _ _)), fun hne => absurd rfl hne⟩
  · have hsub : s.lines.Sublist (pre ++ ss.flatMap Section.lines) :=
      (List.sublist_flatten_of_mem (List.mem_map_of_mem h)).trans (List.sublist_append_right _ _)
    have htext : splitlines s.text = s.lines := splitlines_flatten (hare.sublist hsub)
    refine ⟨htext, fun _ => ⟨hss s h, ?_⟩⟩
    have hone : sectionsOf ([] ++ [s].flatMap Section.lines) = preamble [] ++ [s] :=
      sectionsOf_eq (by simp) (by simpa using hss s h)
    rw [splitSections, htext]
    simpa [preamble] using hone

theorem mem_blocks {conf b : Text} :
    b ∈ blocks conf ↔ ∃ s ∈ splitSections conf, s.header = some peerHeader ∧ rstripNl s.text = b := by
  simp only [blocks, bodies, contents, List.mem_map, List.mem_filter, List.mem_filterMap, Section.content,
    Option.map_eq_some_iff, decide_eq_true_eq]
  constructor
  · rintro ⟨_, ⟨⟨s, hs, h, hh, rfl⟩, rfl⟩, rfl⟩
    exact ⟨s, hs, hh, rfl⟩
  · rintro ⟨s, hs, hh, rfl⟩
    exact ⟨_, ⟨⟨s, hs, _, hh, rfl⟩, rfl⟩, rfl⟩

/-- Each block of the config is a block by itself. -/
theorem isPeer_of_mem_blocks {conf b : Text} (h : b ∈ blocks conf) : IsPeer b ∧ rstripNl b = b := by
  obtain ⟨s, hs, hheader, rfl⟩ := mem_blocks.mp h
  obtain ⟨htext, hheaded⟩ := mem_splitSections hs
  obtain ⟨hheaded, hsplit⟩ := hheaded (by simp [hheader])
  refine ⟨(isPeer_rstripNl _).mpr ⟨hheaded.startsWithHeader htext, ?_⟩, rstripNl_idem _⟩
  simp [contents, hsplit, Section.content, hheader]

/-- The section is one of that client's blocks, judged by its content. -/
def isBlockOf (name : Text) (c : Text × Text) : Bool := c.1 = peerHeader && blockName c.2 = some name

theorem Section.isPeer_eq {conf : Text} {s : Section} (h : s ∈ splitSections conf) (name : Text) :
    s.isPeer name = s.content.any (isBlockOf name) := by
  obtain ⟨htext, -⟩ := mem_splitSections h
  have hname : blockName (rstripNl s.text) = peerName s.lines := by rw [blockName_rstripNl, blockName, htext]
  cases hheader : s.header with
  | none => simp [Section.isPeer, Section.content, hheader]
  | some header => simp [Section.isPeer, Section.content, hheader, isBlockOf, hname, Bool.beq_eq_decide_eq]

/-- Removing a client drops its blocks and nothing else. -/
theorem contents_withoutPeer (conf name : Text) :
    contents (withoutPeer conf name) = (contents conf).filter fun c => !isBlockOf name c := by
  rw [contents, splitSections_withoutPeer, contents, List.filterMap_filter, List.filter_filterMap]
  refine List.filterMap_congr fun s hs => ?_
  rw [Section.isPeer_eq hs]
  cases s.content with
  | none => rfl
  | some c => cases h : isBlockOf name c <;> simp [h, Option.filter_some]

theorem blocks_withoutPeer (conf name : Text) :
    blocks (withoutPeer conf name) = (blocks conf).filter fun b => blockName b ≠ some name := by
  rw [blocks, bodies, contents_withoutPeer, blocks, bodies, List.filter_map, List.filter_filter, List.filter_filter]
  refine congrArg _ (List.filter_congr fun c _ => ?_)
  by_cases h : c.1 = peerHeader <;> simp [h, isBlockOf]

theorem bodies_withoutPeer_of_ne {header : Text} (hne : header ≠ peerHeader) (conf name : Text) :
    bodies header (withoutPeer conf name) = bodies header conf := by
  rw [bodies, contents_withoutPeer, bodies, List.filter_filter]
  refine congrArg _ (List.filter_congr fun c _ => ?_)
  by_cases h : c.1 = header <;> simp [h, isBlockOf, hne]

/-- Adding a block adds its content at the end. -/
theorem contents_addBlock {block : Text} (h : IsPeer block) (conf : Text) :
    contents (addBlock conf block) = contents conf ++ [(peerHeader, rstripNl block)] := by
  have hended : Ended (rstripNl conf ++ ['\n'] ++ ['\n']) := ended_concat.mpr (by decide)
  have hadd : addBlock conf block = rstripNl conf ++ ['\n'] ++ ['\n'] ++ block := by
    simp [addBlock]
  have hold : contents (rstripNl conf ++ ['\n'] ++ ['\n']) = contents conf := by
    rw [contents_newline, contents_newline, contents_rstripNl]
  rw [hadd, contents, splitSections_append hended h.1, List.filterMap_append, ← contents, ← contents, hold, h.2]

theorem blocks_addBlock {block : Text} (h : IsPeer block) (conf : Text) :
    blocks (addBlock conf block) = blocks conf ++ [rstripNl block] := by
  simp [blocks, bodies, contents_addBlock h, List.filter_append]

/-- The block `find_peer` finds, up to newlines at its end, and its key. -/
theorem findPeer_map (conf name : Text) :
    (findPeer conf name).map (fun p => (rstripNl p.1, p.2)) =
      ((blocks conf).find? fun b => blockName b = some name).map fun b => (b, blockValue publicKey b) := by
  have hfind : (splitSections conf).find? (·.isPeer name) =
      (splitSections conf).find? fun s => s.content.any (isBlockOf name) :=
    List.find?_congr fun s hs => Section.isPeer_eq hs name
  have hblocks : (blocks conf).find? (fun b => blockName b = some name) =
      ((contents conf).find? (isBlockOf name)).map Prod.snd := by
    rw [blocks, bodies, List.find?_map, List.find?_filter]
    exact congrArg _ (List.find?_congr fun c _ => by simp [isBlockOf])
  rw [findPeer, hblocks, contents, List.find?_filterMap, hfind]
  cases h : (splitSections conf).find? fun s => s.content.any (isBlockOf name) with
  | none => rfl
  | some s =>
    obtain ⟨htext, -⟩ := mem_splitSections (List.mem_of_find?_eq_some h)
    have hp := List.find?_some h
    obtain ⟨c, hc, -⟩ := (Option.any_eq_true _ _).mp hp
    have hbody : rstripNl s.text = c.2 := by
      obtain ⟨header, -, rfl⟩ := Option.map_eq_some_iff.mp hc
      rfl
    have hvalue : blockValue publicKey c.2 = getValue s.lines publicKey := by
      rw [← hbody, blockValue_rstripNl (by decide), blockValue, htext]
    simp only [Option.map_some, Option.bind_some, hc, hbody, hvalue]

end AmneziaVpnBot.Vpnctl
