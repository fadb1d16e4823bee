import AmneziaVpnBot.Lib.Text
import Mathlib.Data.List.Flatten

/-! The server config as `vpnctl` reads it: sections, the settings in them, and the name
a client's `[Peer]` block carries in its first line. Editing drops whole sections or
adds one at the end, and the sections of the edited text are the edited sections. -/

namespace AmneziaVpnBot.Vpnctl

open Text

def isLetter (c : Char) : Bool := ('a' ≤ c && c ≤ 'z') || ('A' ≤ c && c ≤ 'Z')

/-- `SECTION_HEADER`: letters in brackets, alone on the line. -/
def isHeader (line : Text) : Bool :=
  match strip line with
  | '[' :: rest => rest.getLast? == some ']' && !rest.dropLast.isEmpty && rest.dropLast.all isLetter
  | _ => false

/-- A section with its header line; the lines before the first header have none. -/
structure Section where
  header : Option Text
  lines : List Text
  deriving DecidableEq

def Section.text (s : Section) : Text := s.lines.flatten

/-- The loop of `split_sections`. -/
def sectionLoop (current : Section) : List Text → List Section
  | [] => [current]
  | line :: lines =>
    if isHeader line then current :: sectionLoop ⟨some (strip line), [line]⟩ lines
    else sectionLoop ⟨current.header, current.lines ++ [line]⟩ lines

/-- The sections of a list of lines, without the part before the first header if it is empty. -/
def sectionsOf (lines : List Text) : List Section :=
  (sectionLoop ⟨none, []⟩ lines).filter fun s => s.header.isSome || !s.lines.isEmpty

def splitSections (text : Text) : List Section := sectionsOf (splitlines text)

def interfaceHeader : Text := "[Interface]".toList

def peerHeader : Text := "[Peer]".toList

/-- `none` when the config has no `[Interface]` section. -/
def interfaceLines (conf : Text) : Option (List Text) :=
  ((splitSections conf).find? (·.header == some interfaceHeader)).map fun s => s.lines.tail.map rstripNl

/-- What follows `^\s*key\s*=`. -/
def matchKey (key line : Text) : Option Text :=
  (afterPrefix key (line.dropWhile isSpace)).bind fun rest =>
    match rest.dropWhile isSpace with
    | '=' :: value => some value
    | _ => none

/-- The group of `\s*(.+?)\s*$`: the text without the white space around it, or, where there is
nothing else, the last blank before the line end. -/
def captured (rest : Text) : Option Text :=
  if strip rest ≠ [] then some (strip rest)
  else (rest.filter (· ≠ '\n')).getLast?.map fun c => [c]

def lineValue (key line : Text) : Option Text := (matchKey key line).bind captured

def getValue (lines : List Text) (key : Text) : Option Text := lines.findSome? (lineValue key)

/-- The word in a comment line that holds one word only. -/
def commentWord : Text → Option Text
  | '#' :: rest => if strip rest ≠ [] ∧ ∀ c ∈ strip rest, isSpace c = false then some (strip rest) else none
  | _ => none

def peerName : List Text → Option Text
  | _ :: line :: _ => commentWord (rstripNl line)
  | _ => none

/-- The section is the `[Peer]` named `# name`. -/
def Section.isPeer (name : Text) (s : Section) : Bool :=
  s.header == some peerHeader && peerName s.lines == some name

def publicKey : Text := "PublicKey".toList

def presharedKey : Text := "PresharedKey".toList

def allowedIpsKey : Text := "AllowedIPs".toList

/-- The text of the first `[Peer]` of that name and its public key. -/
def findPeer (conf name : Text) : Option (Text × Option Text) :=
  ((splitSections conf).find? (·.isPeer name)).map fun s => (s.text, getValue s.lines publicKey)

def withoutPeer (conf name : Text) : Text :=
  ((splitSections conf).filter (!·.isPeer name)).flatMap Section.text

/-- `conf.rstrip("\n") + "\n\n" + block` -/
def addBlock (conf block : Text) : Text := rstripNl conf ++ "\n\n".toList ++ block

/-! ### Sections of edited text -/

/-- A section that starts with its header line and has no other. -/
def Section.Headed (s : Section) : Prop :=
  ∃ line rest, s = ⟨some (strip line), line :: rest⟩ ∧ isHeader line = true ∧ ∀ l ∈ rest, isHeader l = false

theorem sectionLoop_plain {pre : List Text} (h : ∀ l ∈ pre, isHeader l = false) (current : Section)
    (lines : List Text) :
    sectionLoop current (pre ++ lines) = sectionLoop ⟨current.header, current.lines ++ pre⟩ lines := by
  induction pre generalizing current with
  | nil => simp
  | cons l pre ih =>
    rw [List.cons_append, sectionLoop, if_neg (by simp [h l]), ih fun m hm => h m (List.mem_cons_of_mem _ hm)]
    simp

theorem sectionLoop_headed {ss : List Section} (h : ∀ s ∈ ss, s.Headed) (current : Section) :
    sectionLoop current (ss.flatMap Section.lines) = current :: ss := by
  induction ss generalizing current with
  | nil => rfl
  | cons s ss ih =>
    obtain ⟨line, rest, rfl, hline, hrest⟩ := h s List.mem_cons_self
    rw [List.flatMap_cons, List.cons_append, sectionLoop, if_pos hline, sectionLoop_plain hrest,
      ih fun t ht => h t (List.mem_cons_of_mem _ ht)]
    rfl

/-- The lines before the first header as a section of their own, if there are any. -/
def preamble (pre : List Text) : List Section := if pre.isEmpty then [] else [⟨none, pre⟩]

theorem sectionsOf_eq {pre : List Text} {ss : List Section} (hpre : ∀ l ∈ pre, isHeader l = false)
    (hss : ∀ s ∈ ss, s.Headed) : sectionsOf (pre ++ ss.flatMap Section.lines) = preamble pre ++ ss := by
  have hkeep : ss.filter (fun s => s.header.isSome || !s.lines.isEmpty) = ss := by
    refine List.filter_eq_self.mpr fun s hs => ?_
    obtain ⟨line, rest, rfl, -⟩ := hss s hs
    rfl
  rw [sectionsOf, sectionLoop_plain hpre, sectionLoop_headed hss, List.filter_cons, hkeep, preamble]
  cases pre <;> rfl

theorem exists_sections (lines : List Text) :
    ∃ (pre : List Text) (ss : List Section), lines = pre ++ ss.flatMap Section.lines ∧
      (∀ l ∈ pre, isHeader l = false) ∧ ∀ s ∈ ss, s.Headed := by
  induction lines with
  | nil => exact ⟨[], [], by simp⟩
  | cons line lines ih =>
    obtain ⟨pre, ss, rfl, hpre, hss⟩ := ih
    by_cases h : isHeader line = true
    · refine ⟨[], ⟨some (strip line), line :: pre⟩ :: ss, by simp, by simp, ?_⟩
      rintro s (- | ⟨-, hs⟩)
      · exact ⟨line, pre, rfl, h, hpre⟩
      · exact hss s hs
    · refine ⟨line :: pre, ss, rfl, ?_, hss⟩
      rintro l (- | ⟨-, hl⟩)
      · simpa using h
      · exact hpre l hl

theorem lines_preamble (pre : List Text) : (preamble pre).flatMap Section.lines = pre := by
  cases pre <;> simp [preamble]

theorem flatMap_text (ss : List Section) : ss.flatMap Section.text = (ss.flatMap Section.lines).flatten := by
  induction ss with
  | nil => rfl
  | cons s ss ih => simp [ih, Section.text]

theorem splitlines_eq_sections (text : Text) : splitlines text = (splitSections text).flatMap Section.lines := by
  obtain ⟨pre, ss, hlines, hpre, hss⟩ := exists_sections (splitlines text)
  rw [splitSections, hlines, sectionsOf_eq hpre hss, List.flatMap_append, lines_preamble]

/-- Joining the sections gives the text back. -/
theorem splitSections_text (text : Text) : (splitSections text).flatMap Section.text = text := by
  rw [flatMap_text, ← splitlines_eq_sections, flatten_splitlines]

/-- Dropping sections from the text drops them from its sections. -/
theorem splitSections_filter {keep : Section → Bool} (hkeep : ∀ ls, keep ⟨none, ls⟩ = true) (text : Text) :
    splitSections (((splitSections text).filter keep).flatMap Section.text) = (splitSections text).filter keep := by
  obtain ⟨pre, ss, hlines, hpre, hss⟩ := exists_sections (splitlines text)
  have hsections : splitSections text = preamble pre ++ ss := by rw [splitSections, hlines, sectionsOf_eq hpre hss]
  have hpreamble : (preamble pre).filter keep = preamble pre := by
    cases pre <;> simp [preamble, hkeep]
  have hsub : (pre ++ (ss.filter keep).flatMap Section.lines).Sublist (splitlines text) := by
    rw [hlines]
    exact (List.Sublist.refl pre).append (List.filter_sublist.flatMap _)
  rw [hsections, List.filter_append, hpreamble, flatMap_text, List.flatMap_append, lines_preamble, splitSections,
    splitlines_flatten ((areLines_splitlines text).sublist hsub),
    sectionsOf_eq hpre fun s hs => hss s (List.mem_of_mem_filter hs)]

theorem splitSections_withoutPeer (conf name : Text) :
    splitSections (withoutPeer conf name) = (splitSections conf).filter (!·.isPeer name) :=
  splitSections_filter (fun _ => rfl) conf

/-- The text starts with a section header. -/
def StartsWithHeader (text : Text) : Prop := ∃ line ∈ (splitlines text).head?, isHeader line = true

theorem StartsWithHeader.sections {text : Text} (h : StartsWithHeader text) :
    ∃ ss : List Section, splitlines text = ss.flatMap Section.lines ∧ (∀ s ∈ ss, s.Headed) ∧
    splitSections text = ss := by
  obtain ⟨line, hline, hheader⟩ := h
  obtain ⟨pre, ss, hlines, hpre, hss⟩ := exists_sections (splitlines text)
  cases pre with
  | nil => exact ⟨ss, hlines, hss, by rw [splitSections, hlines, sectionsOf_eq hpre hss]; rfl⟩
  | cons l pre =>
    rw [hlines] at hline
    simp [← Option.mem_some.mp hline, hpre l] at hheader

/-- Text that starts with a header adds its sections to those of a finished text. -/
theorem splitSections_append {u v : Text} (hu : Ended u) (hv : StartsWithHeader v) :
    splitSections (u ++ v) = splitSections u ++ splitSections v := by
  obtain ⟨pre, ss, hlines, hpre, hss⟩ := exists_sections (splitlines u)
  obtain ⟨ts, hv, hts, hsections⟩ := hv.sections
  rw [hsections, splitSections, splitSections, splitlines_append hu, hlines, hv, sectionsOf_eq hpre hss,
    List.append_assoc, ← List.flatMap_append, sectionsOf_eq hpre, List.append_assoc]
  intro s hs
  exact (List.mem_append.mp hs).elim (hss s) (hts s)

end AmneziaVpnBot.Vpnctl
