import AmneziaVpnBot.Vpnctl.Commands
import AmneziaVpnBot.Vpnctl.Blocks

/-! The block a create writes reads back as what was put in it, from the config as from the
saved file. -/

namespace AmneziaVpnBot.Vpnctl

open Text

/-! ### Lines of settings -/

theorem setting_eq (key value : Text) : setting key value = (key ++ (" = ".toList ++ value)) ++ ['\n'] := by
  unfold setting
  simp only [List.append_assoc]

theorem matchKey_setting {key : Text} (hkey : IsWord key) (value : Text) :
    matchKey key (key ++ (" = ".toList ++ value)) = some (' ' :: value) := by
  rw [matchKey, hkey.dropWhile, afterPrefix_self]
  rfl

/-- A setting's line gives its value back. -/
theorem lineValue_setting {key value : Text} (hkey : IsWord key) (hvalue : IsWord value) :
    lineValue key (setting key value) = some value := by
  have hstrip : strip (' ' :: value) = value :=
    (strip_pad (u := [' ']) (by decide) value).trans hvalue.strip
  rw [setting_eq, lineValue_newline hkey, lineValue, matchKey_setting hkey, Option.bind_some, captured, hstrip,
    if_pos hvalue.1]

/-- Another setting's line gives nothing. -/
theorem lineValue_setting_of_diverge {key other : Text} (hother : IsWord other)
    (h : (key.zip other).any fun p => p.1 != p.2) (value : Text) : lineValue key (setting other value) = none := by
  rw [setting, lineValue, matchKey, List.append_assoc, List.append_assoc, hother.dropWhile, afterPrefix_of_diverge h]
  rfl

theorem isHeader_of_head {c : Char} (hspace : isSpace c = false)
    (hc : c ≠ '[') (l : Text) : isHeader (c :: l) = false := by
  have hstrip : strip (c :: l) = c :: (strip (c :: l)).tail := by
    have hprefix : strip (c :: l) <+: c :: l := by
      rw [strip, List.dropWhile_cons_of_neg (by simp [hspace])]
      exact List.rdropWhile_prefix _ _
    have hne : strip (c :: l) ≠ [] := by
      rw [Ne, strip_eq_nil]
      exact fun h => by simpa [hspace] using h c List.mem_cons_self
    obtain ⟨d, ds, hd⟩ := List.exists_cons_of_ne_nil hne
    rw [hd] at hprefix ⊢
    rw [(List.cons_prefix_cons.mp hprefix).1]
    rfl
  rw [isHeader, hstrip]
  split
  · rename_i h
    exact absurd (List.cons.inj h).1 hc
  · rfl

theorem isHeader_setting {key : Text} (hkey : IsWord key) (hhead : key.head? ≠ some '[') (value : Text) :
    isHeader (setting key value) = false := by
  obtain ⟨k, ks, rfl⟩ := List.exists_cons_of_ne_nil hkey.1
  exact isHeader_of_head (hkey.2 k List.mem_cons_self) (fun h => hhead (by rw [h]; rfl)) _

/-- A line of text without a line break in it. -/
theorem isLine_newline {l : Text} (h : ∀ c ∈ l, isBreak c = false) : IsLine (l ++ ['\n']) ∧ Ended (l ++ ['\n']) :=
  ⟨isLine_concat.mpr h, ended_concat.mpr (by decide)⟩

theorem setting_unbroken {key value : Text} (hkey : IsWord key) (hvalue : IsWord value) :
    ∀ c ∈ key ++ (" = ".toList ++ value), isBreak c = false := by
  have hequals : ∀ c ∈ " = ".toList, isBreak c = false := by decide
  simp only [List.mem_append]
  rintro c (h | h | h)
  · exact hkey.unbroken c h
  · exact hequals c h
  · exact hvalue.unbroken c h

/-! ### The block -/

/-- The public key is part of the block. -/
theorem pub_infix_peerBlock (name pub psk ips : Text) : pub <:+: peerBlock name pub psk ips := by
  have hsplit : peerBlock name pub psk ips =
      ("[Peer]\n# ".toList ++ name ++ ['\n'] ++ publicKey ++ " = ".toList) ++ pub ++
        (['\n'] ++ setting presharedKey psk ++ setting allowedIpsKey ips) := by
    unfold peerBlock setting
    simp only [List.append_assoc]
  exact ⟨_, _, hsplit.symm⟩

/-- What a create puts in a block: words, so that they read back. -/
structure Peer where
  name : Text
  pub : Text
  psk : Text
  ips : Text
  name_word : IsWord name
  pub_word : IsWord pub
  psk_word : IsWord psk
  ips_word : IsWord ips

namespace Peer

variable (p : Peer)

def block : Text := peerBlock p.name p.pub p.psk p.ips

def lines : List Text :=
  [peerHeader ++ ['\n'], ("# ".toList ++ p.name) ++ ['\n'], setting publicKey p.pub, setting presharedKey p.psk,
    setting allowedIpsKey p.ips]

theorem block_eq : p.block = p.lines.flatten := by
  unfold block lines peerBlock
  simp only [List.flatten_cons, List.flatten_nil, List.append_nil, List.append_assoc]
  rfl

theorem isLine_of_mem_lines : ∀ l ∈ p.lines, ∃ body, l = body ++ ['\n'] ∧ ∀ c ∈ body, isBreak c = false := by
  have hname : ∀ c ∈ "# ".toList ++ p.name, isBreak c = false := by
    have hhash : ∀ c ∈ "# ".toList, isBreak c = false := by decide
    intro c hc
    exact (List.mem_append.mp hc).elim (hhash c) (p.name_word.unbroken c)
  simp only [lines, List.forall_mem_cons, List.not_mem_nil, false_implies, implies_true, and_true]
  exact ⟨⟨_, rfl, by decide⟩, ⟨_, rfl, hname⟩, ⟨_, setting_eq _ _, setting_unbroken (by decide) p.pub_word⟩,
    ⟨_, setting_eq _ _, setting_unbroken (by decide) p.psk_word⟩,
    ⟨_, setting_eq _ _, setting_unbroken (by decide) p.ips_word⟩⟩

@[simp] theorem splitlines_block : splitlines p.block = p.lines := by
  have hlines : ∀ l ∈ p.lines, IsLine l ∧ Ended l := by
    intro l hl
    obtain ⟨body, rfl, hbody⟩ := p.isLine_of_mem_lines l hl
    exact isLine_newline hbody
  rw [block_eq]
  refine splitlines_flatten ⟨fun l hl => (hlines l hl).1, ?_⟩
  exact List.Pairwise.imp_of_mem (R := fun _ _ => True) (fun hl _ _ => (hlines _ hl).2)
    (List.pairwise_of_forall fun _ _ => trivial)

theorem splitSections_block : splitSections p.block = [⟨some peerHeader, p.lines⟩] := by
  have hheaded : Section.Headed ⟨some peerHeader, p.lines⟩ := by
    have hstrip : strip (peerHeader ++ ['\n']) = peerHeader := by decide
    refine ⟨peerHeader ++ ['\n'], p.lines.tail, by rw [hstrip]; rfl, by decide, ?_⟩
    simp only [lines, List.tail_cons, List.forall_mem_cons, List.not_mem_nil, false_implies, implies_true, and_true]
    exact ⟨isHeader_of_head (by decide) (by decide) _, isHeader_setting (by decide) (by decide) _,
      isHeader_setting (by decide) (by decide) _, isHeader_setting (by decide) (by decide) _⟩
  have h : sectionsOf ([] ++ [⟨some peerHeader, p.lines⟩].flatMap Section.lines) = preamble [] ++
    [⟨some peerHeader, p.lines⟩] :=
    sectionsOf_eq (by simp) (by simpa using hheaded)
  rw [splitSections, splitlines_block]
  simpa [preamble] using h

theorem isPeer_block : IsPeer p.block := by
  refine ⟨⟨peerHeader ++ ['\n'], ?_, by decide⟩, ?_⟩
  · rw [splitlines_block]
    rfl
  · rw [contents, splitSections_block, block_eq]
    rfl

@[simp] theorem blockName_block : blockName p.block = some p.name := by
  have hstrip : strip (' ' :: p.name) = p.name := (strip_pad (u := [' ']) (by decide) p.name).trans p.name_word.strip
  have hline : rstripNl (("# ".toList ++ p.name) ++ ['\n']) = '#' :: ' ' :: p.name := by
    rw [rstripNl_newline, p.name_word.rstripNl]
    rfl
  rw [blockName, splitlines_block, lines, peerName, hline, commentWord, hstrip, if_pos ⟨p.name_word.1, p.name_word.2⟩]

theorem blockValue_block : blockValue publicKey p.block = some p.pub ∧ blockValue presharedKey p.block = some p.psk ∧
    blockValue allowedIpsKey p.block = some p.ips := by
  have hhead : ∀ key ∈ [publicKey, presharedKey, allowedIpsKey], lineValue key (peerHeader ++ ['\n']) =
    none := by decide
  have hcomment : ∀ key ∈ [publicKey, presharedKey, allowedIpsKey],
      lineValue key (("# ".toList ++ p.name) ++ ['\n']) = none := by
    intro key hkey
    simp only [List.mem_cons, List.not_mem_nil, or_false] at hkey
    rcases hkey with rfl | rfl | rfl <;> rfl
  have hpskPub : lineValue presharedKey (setting publicKey p.pub) = none :=
    lineValue_setting_of_diverge (by decide) (by decide) _
  have hipsPub : lineValue allowedIpsKey (setting publicKey p.pub) = none :=
    lineValue_setting_of_diverge (by decide) (by decide) _
  have hipsPsk : lineValue allowedIpsKey (setting presharedKey p.psk) = none :=
    lineValue_setting_of_diverge (by decide) (by decide) _
  simp only [List.forall_mem_cons, List.not_mem_nil, false_implies, implies_true, and_true] at hhead hcomment
  simp only [blockValue, getValue, splitlines_block, lines, List.findSome?_cons, hhead, hcomment,
    lineValue_setting (by decide : IsWord publicKey) p.pub_word,
    lineValue_setting (by decide : IsWord presharedKey) p.psk_word,
    lineValue_setting (by decide : IsWord allowedIpsKey) p.ips_word,
    hpskPub, hipsPub, hipsPsk, and_self]

@[simp] theorem publicKey_block : blockValue publicKey p.block = some p.pub := p.blockValue_block.1

@[simp] theorem presharedKey_block : blockValue presharedKey p.block = some p.psk := p.blockValue_block.2.1

@[simp] theorem allowedIps_block : blockValue allowedIpsKey p.block = some p.ips := p.blockValue_block.2.2

end Peer

/-! ### Saved blocks -/

/-- Newlines are the only line ends of the text. -/
def Plain (t : Text) : Prop := ∀ c ∈ t, isBreak c = true → c = '\n'

theorem chomp_eq {l : Text} (hline : IsLine l) (hplain : Plain l) :
    (∀ c ∈ chomp l, isBreak c = false) ∧ (l = chomp l ∨ l = chomp l ++ ['\n']) := by
  rcases List.eq_nil_or_concat l with rfl | ⟨k, c, rfl⟩
  · exact absurd rfl hline.1
  rw [List.concat_eq_append] at *
  have hk := isLine_concat.mp hline
  have hchomp : k.rdropWhile isBreak = k := by
    rw [List.rdropWhile_eq_self_iff]
    exact fun hne => by simp [hk _ (List.getLast_mem hne)]
  by_cases hc : isBreak c = true
  · obtain rfl := hplain c (by simp) hc
    rw [chomp, List.rdropWhile_concat_pos _ _ _ hc, hchomp]
    exact ⟨hk, .inr rfl⟩
  · rw [chomp, List.rdropWhile_concat_neg _ _ _ hc]
    refine ⟨fun d hd => ?_, .inl rfl⟩
    rcases List.mem_append.mp hd with hd | hd
    · exact hk d hd
    · simpa [List.mem_singleton.mp hd] using hc

/-- Without its line ends a block has the same settings. -/
theorem getValue_savedLines {block key : Text} (hplain : Plain block) (hkey : IsWord key) :
    getValue (savedLines block) key = blockValue key block := by
  have hlines := (areLines_splitlines block).1
  have hmem : ∀ l ∈ splitlines block, Plain l := fun l hl c hc =>
    hplain c (by rw [← flatten_splitlines block]; exact List.mem_flatten.mpr ⟨l, hl, hc⟩)
  have hvalue : ∀ l ∈ splitlines block, lineValue key (chomp l) = lineValue key l := by
    intro l hl
    rcases (chomp_eq (hlines l hl) (hmem l hl)).2 with h | h
    · rw [← h]
    · conv_rhs => rw [h]
      exact (lineValue_newline hkey _).symm
  rw [getValue, savedLines, blockValue, getValue, List.findSome?_map]
  generalize splitlines block = ls at hvalue
  induction ls with
  | nil => rfl
  | cons l ls ih =>
    rw [List.findSome?_cons, List.findSome?_cons, Function.comp_apply, hvalue l List.mem_cons_self,
      ih fun m hm => hvalue m (List.mem_cons_of_mem _ hm)]

theorem plain_newline (t : Text) : Plain (t ++ ['\n']) ↔ Plain t := by
  constructor
  · exact fun h c hc => h c (List.mem_append_left _ hc)
  · intro h c hc hb
    rcases List.mem_append.mp hc with hc | hc
    · exact h c hc hb
    · exact List.mem_singleton.mp hc

theorem plain_rstripNl (t : Text) : Plain (rstripNl t) ↔ Plain t :=
  iff_of_eq (eq_rstripNl Plain (fun t => propext (plain_newline t)) t)

theorem Peer.plain_block (p : Peer) : Plain p.block := by
  rw [p.block_eq]
  intro c hc hb
  obtain ⟨l, hl, hc⟩ := List.mem_flatten.mp hc
  obtain ⟨body, rfl, hbody⟩ := p.isLine_of_mem_lines l hl
  rcases List.mem_append.mp hc with hc | hc
  · simp [hbody c hc] at hb
  · exact List.mem_singleton.mp hc

/-- A block keeps its settings when newlines at its end come or go. -/
theorem getValue_of_rstripNl {block t key : Text} (h : rstripNl block = rstripNl t) (ht : Plain t) (hkey : IsWord key) :
    getValue (savedLines block) key = blockValue key t := by
  have hplain : Plain block := by rwa [← plain_rstripNl, h, plain_rstripNl]
  rw [getValue_savedLines hplain hkey, ← blockValue_rstripNl hkey, h, blockValue_rstripNl hkey]

/-! ### Words -/

theorem isSpace_of_isIdentifierChar {c : Char} (h : isIdentifierChar c = true) : isSpace c = false := by
  by_contra hs
  simp only [isIdentifierChar, isLetter, isDigit, Bool.or_eq_true, Bool.and_eq_true, decide_eq_true_eq, beq_iff_eq,
    Char.le_def, UInt32.le_iff_toNat_le] at h
  simp only [isSpace, Bool.or_eq_true, Bool.and_eq_true, decide_eq_true_eq, beq_iff_eq, Bool.not_eq_false,
    Char.toNat] at hs
  rcases h with (((h | h) | h) | rfl) | rfl
  · change 97 ≤ _ ∧ _ ≤ 122 at h
    omega
  · change 65 ≤ _ ∧ _ ≤ 90 at h
    omega
  · change 48 ≤ _ ∧ _ ≤ 57 at h
    omega
  · revert hs
    decide
  · revert hs
    decide

theorem isWord_of_isIdentifier {t : Text} (h : isIdentifier t = true) : IsWord t := by
  simp only [isIdentifier, Bool.and_eq_true, Bool.not_eq_true', List.isEmpty_eq_false_iff, List.all_eq_true] at h
  exact ⟨h.1.1, fun c hc => isSpace_of_isIdentifierChar (h.2 c hc)⟩

theorem isSpace_of_isAddressChar {c : Char} (h : isAddressChar c = true) : isSpace c = false := by
  by_cases hi : isIdentifierChar c = true
  · exact isSpace_of_isIdentifierChar hi
  · simp only [isAddressChar, isIdentifierChar, isLetter, isDigit, Bool.or_eq_true, Bool.and_eq_true, decide_eq_true_eq,
      beq_iff_eq] at h hi
    rcases h with ((h | h) | rfl) | rfl
    · exact absurd (.inl (.inl (.inr h))) hi
    · exact absurd (.inl (.inl (.inl (.inl ⟨h.1, Char.le_trans h.2 (show 'f' ≤ 'z' by decide)⟩)))) hi
    · decide
    · decide

theorem isWord_allowedIps (ip : Ip) : IsWord (ip.text ++ "/32".toList) := by
  have hmask : ∀ c ∈ "/32".toList, isSpace c = false := by decide
  refine ⟨by simp, fun c hc => ?_⟩
  exact (List.mem_append.mp hc).elim (fun hc => isSpace_of_isAddressChar (isAddressChar_of_mem_text hc)) (hmask c)

end AmneziaVpnBot.Vpnctl
