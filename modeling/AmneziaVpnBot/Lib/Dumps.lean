import AmneziaVpnBot.Lib.Json

/-! JSON as Python's `json.dumps` writes it: ASCII in one line, with a blank after every comma and colon.
`json.loads` reads back what was written, unless a string has the two halves of a surrogate pair as characters
of their own or a container is nested too deeply. -/

namespace Json

/-! ### Strings -/

def isHigh (n : ℕ) : Bool := 0xd800 ≤ n && n < 0xdc00

def isLow (n : ℕ) : Bool := 0xdc00 ≤ n && n < 0xe000

/-- A code point in UTF-16. -/
def units (n : ℕ) : List ℕ :=
  if n < 0x10000 then [n] else [0xd800 + (n - 0x10000) / 0x400, 0xdc00 + (n - 0x10000) % 0x400]

/-- `"\\u{0:04x}".format(n)` -/
def hexEscape (n : ℕ) : Text := '\\' :: 'u' :: [n / 4096, n / 256 % 16, n / 16 % 16, n % 16].map Nat.digitChar

/-- `ESCAPE_DCT`, without the control characters that have no letter. -/
def letters : List (ℕ × Char) :=
  [('\\'.toNat, '\\'), ('"'.toNat, '"'), (8, 'b'), (12, 'f'), (10, 'n'), (13, 'r'), (9, 't')]

def isPrintable (n : ℕ) : Bool := 0x20 ≤ n && n < 0x7f

def escape (n : ℕ) : Text :=
  match letters.lookup n with
  | some c => ['\\', c]
  | none => if isPrintable n then [.ofNat n] else hexEscape n

/-- `py_encode_basestring_ascii` -/
def quoted (s : Str) : Text := '"' :: (s.flatMap units).flatMap escape ++ ['"']

/-- Code points, no two of which are one character when they are escaped. -/
def isSeparate : Str → Bool
  | n :: m :: s => n < 0x110000 && !(isHigh n && isLow m) && isSeparate (m :: s)
  | s => s.all (· < 0x110000)

theorem hexDigit_digitChar : ∀ d < 16, hexDigit (Nat.digitChar d) = some d := by decide

theorem mapM_hexDigit {a b c d : ℕ} (ha : a < 16) (hb : b < 16) (hc : c < 16) (hd : d < 16) :
    ([a, b, c, d].map Nat.digitChar).mapM hexDigit = some [a, b, c, d] := by
  simp only [List.map_cons, List.map_nil, List.mapM_cons, List.mapM_nil, hexDigit_digitChar _ ha,
    hexDigit_digitChar _ hb, hexDigit_digitChar _ hc, hexDigit_digitChar _ hd]
  rfl

theorem scanString_hexEscape {n : ℕ} (h : n < 0x10000) (rest : Text) :
    scanString (hexEscape n ++ rest) = (scanString rest).map fun (s, k) => (n :: s, k + 6) := by
  have hds := mapM_hexDigit (a := n / 4096) (b := n / 256 % 16) (c := n / 16 % 16) (d := n % 16)
    (by omega) (by omega) (by omega) (by omega)
  have hn : [n / 4096, n / 256 % 16, n / 16 % 16, n % 16].foldl (fun n d => 16 * n + d) 0 = n := by
    simp only [List.foldl_cons, List.foldl_nil]
    omega
  simp only [List.map_cons, List.map_nil] at hds
  simp only [hexEscape, List.map_cons, List.map_nil, List.cons_append, List.nil_append]
  rw [scanString, hds, Option.bind_some, hn]

theorem scanString_plain {c : Char} (h : 0x20 ≤ c.toNat) (hquote : c ≠ '"') (hslash : c ≠ '\\') (rest : Text) :
    scanString (c :: rest) = (scanString rest).map fun (s, k) => (c.toNat :: s, k + 1) := by
  have hc : ¬ (c.toNat < 0x20 ∨ c = '\\') := not_or.mpr ⟨by omega, hslash⟩
  rw [scanString, if_neg hc]
  · exact fun h => absurd h hquote
  · exact fun _ _ _ _ _ h => absurd h hslash
  · exact fun _ _ h => absurd h hslash

theorem mem_letters {n : ℕ} {c : Char} (h : letters.lookup n = some c) : (n, c) ∈ letters := by
  obtain ⟨l₁, l₂, hl, -⟩ := List.lookup_eq_some_iff.mp h
  rw [hl]
  exact List.mem_append_right _ List.mem_cons_self

/-- A letter after a backslash is the character it was written for. -/
theorem scanString_letter {n : ℕ} {c : Char} (h : (n, c) ∈ letters) (rest : Text) :
    scanString ('\\' :: c :: rest) = (scanString rest).map fun (s, k) => (n :: s, k + 2) := by
  have hall : ∀ p ∈ letters, p.2 ≠ 'u' ∧ escapes.lookup p.2 = some p.1 := by decide
  obtain ⟨hu, hlookup⟩ := hall _ h
  rw [scanString, hlookup, Option.bind_some]
  exact fun _ _ _ _ _ h => absurd h hu

theorem lookup_letters_eq_none {n : ℕ} (h : letters.lookup n = none) : n ≠ '"'.toNat ∧ n ≠ '\\'.toNat := by
  constructor <;> (rintro rfl; revert h; decide)

theorem isPrintable_iff {n : ℕ} : isPrintable n = true ↔ 0x20 ≤ n ∧ n < 0x7f := by simp [isPrintable]

theorem scanString_escape {n : ℕ} (h : n < 0x10000) (rest : Text) :
    scanString (escape n ++ rest) = (scanString rest).map fun (s, k) => (n :: s, k + (escape n).length) := by
  unfold escape
  split
  next c hc => exact scanString_letter (mem_letters hc) rest
  next hnone =>
    split
    next hn =>
      rw [isPrintable_iff] at hn
      have hchar : (Char.ofNat n).toNat = n := Utf8.toNat_ofNat_char (.inl (by omega))
      obtain ⟨hquote, hslash⟩ := lookup_letters_eq_none hnone
      rw [List.singleton_append, scanString_plain, hchar]
      · rfl
      · rw [hchar]; exact hn.1
      · rintro hc; exact hquote (by rw [← hc, hchar])
      · rintro hc; exact hslash (by rw [← hc, hchar])
    next => exact scanString_hexEscape h rest

theorem scanString_flatMap {us : List ℕ} (h : ∀ n ∈ us, n < 0x10000) (rest : Text) :
    scanString (us.flatMap escape ++ '"' :: rest) = some (us, (us.flatMap escape).length + 1) := by
  induction us with
  | nil => rfl
  | cons n us ih =>
    rw [List.forall_mem_cons] at h
    have hlen : (us.flatMap escape).length + 1 + (escape n).length =
      (escape n).length + (us.flatMap escape).length + 1 := by
      omega
    rw [List.flatMap_cons, List.append_assoc, scanString_escape h.1, ih h.2, Option.map_some,
      List.length_append, ← hlen]

/-! ### Surrogates -/

theorem joinSurrogates_pair {n : ℕ} (h : 0x10000 ≤ n) (hn : n < 0x110000) (us : List ℕ) :
    joinSurrogates (units n ++ us) = n :: joinSurrogates us := by
  have hlow := Nat.mod_lt (n - 0x10000) (show 0 < 0x400 by decide)
  have hcode : 0x10000 + (0xd800 + (n - 0x10000) / 0x400 - 0xd800) * 0x400 +
      (0xdc00 + (n - 0x10000) % 0x400 - 0xdc00) = n := by omega
  rw [units, if_neg (by omega), List.cons_append, List.singleton_append, joinSurrogates, hcode, if_pos (by omega)]

theorem joinSurrogates_cons {n : ℕ} {us : List ℕ} (h : isHigh n = true → us.head?.all (fun m => !isLow m) = true) :
    joinSurrogates (n :: us) = n :: joinSurrogates us := by
  cases us with
  | nil => rfl
  | cons m us =>
    rw [joinSurrogates, if_neg]
    rintro ⟨hhigh, hhigh', hlow, hlow'⟩
    have := h (by simp [isHigh, hhigh, hhigh'])
    simp [isLow, hlow, hlow'] at this

theorem isLow_of_lt {n : ℕ} (h : n < 0xdc00) : isLow n = false := by
  unfold isLow
  simp
  omega

/-- The first half of what a character is escaped to is no low surrogate, unless the character is one. -/
theorem head_units {m : ℕ} (hm : m < 0x110000) (h : isLow m = false) (us : List ℕ) :
    (units m ++ us).head?.all (fun u => !isLow u) = true := by
  unfold units
  split
  · simp [h]
  · rw [List.cons_append, List.head?_cons, Option.all_some, isLow_of_lt (by omega)]
    rfl

theorem lt_of_isSeparate {n : ℕ} {s : Str} (h : isSeparate (n :: s) = true) : n < 0x110000 := by
  cases s with
  | nil => simpa [isSeparate] using h
  | cons m s =>
    rw [isSeparate, Bool.and_eq_true, Bool.and_eq_true, decide_eq_true_eq] at h
    exact h.1.1

theorem isSeparate_tail {n : ℕ} {s : Str} (h : isSeparate (n :: s) = true) : isSeparate s = true := by
  cases s with
  | nil => rfl
  | cons m s =>
    rw [isSeparate, Bool.and_eq_true] at h
    exact h.2

theorem lt_of_mem {s : Str} (h : isSeparate s = true) {n : ℕ} (hn : n ∈ s) : n < 0x110000 := by
  induction s with
  | nil => cases hn
  | cons m s ih =>
    obtain rfl | hn := List.mem_cons.mp hn
    · exact lt_of_isSeparate h
    · exact ih (isSeparate_tail h) hn

theorem joinSurrogates_units {s : Str} (h : isSeparate s = true) : joinSurrogates (s.flatMap units) = s := by
  induction s with
  | nil => rfl
  | cons n s ih =>
    have hn := lt_of_isSeparate h
    have hs := isSeparate_tail h
    rw [List.flatMap_cons]
    by_cases hsmall : n < 0x10000
    · rw [units, if_pos hsmall, List.singleton_append, joinSurrogates_cons, ih hs]
      intro hhigh
      cases s with
      | nil => rfl
      | cons m s =>
        rw [isSeparate, hhigh, Bool.true_and, Bool.and_eq_true, Bool.and_eq_true, Bool.not_eq_true'] at h
        rw [List.flatMap_cons]
        exact head_units (lt_of_isSeparate hs) h.1.2 _
    · rw [joinSurrogates_pair (by omega) hn, ih hs]

theorem isSeparate_cons {n : ℕ} {s : Str} (hn : n < 0x110000) (hhigh : isHigh n = false) :
    isSeparate (n :: s) = isSeparate s := by
  cases s with
  | nil => simp [isSeparate, hn]
  | cons m s => simp [isSeparate, hn, hhigh]

/-- No character of a text is half a pair. -/
theorem isSeparate_text (t : Text) : isSeparate (t.map Char.toNat) = true := by
  induction t with
  | nil => rfl
  | cons c t ih =>
    have hc : c.toNat < 0xd800 ∨ 0xdfff < c.toNat ∧ c.toNat < 0x110000 := c.valid
    rw [List.map_cons, isSeparate_cons (by omega), ih]
    rw [isHigh, Bool.and_eq_false_iff, decide_eq_false_iff_not, decide_eq_false_iff_not]
    omega

theorem isSeparate_of_lt {s : Str} (h : ∀ c ∈ s, c < 0xd800) : isSeparate s = true := by
  induction s with
  | nil => rfl
  | cons n s ih =>
    rw [List.forall_mem_cons] at h
    rw [isSeparate_cons (h.1.trans (by decide)), ih h.2]
    rw [isHigh, Bool.and_eq_false_iff, decide_eq_false_iff_not]
    exact .inl (Nat.not_le.mpr h.1)

/-- A string is read back from what was written, and the characters after it are left. -/
theorem nextToken_quoted {s : Str} (h : isSeparate s = true) (rest : Text) :
    nextToken (quoted s ++ rest) = (.string s, (quoted s).length) := by
  have hunits : ∀ n ∈ s.flatMap units, n < 0x10000 := by
    intro n hn
    obtain ⟨m, hm, hn⟩ := List.mem_flatMap.mp hn
    have hlt := lt_of_mem h hm
    unfold units at hn
    split at hn
    · rw [List.mem_singleton] at hn
      omega
    · simp only [List.mem_cons, List.not_mem_nil, or_false] at hn
      omega
  rw [quoted, List.append_assoc, List.cons_append, nextToken, List.singleton_append, scanString_flatMap hunits]
  simp only [joinSurrogates_units h, List.length_append, List.length_cons, List.length_nil]

/-! ### Numbers -/

/-- Could a number go on with this character? -/
def goesOn (c : Char) : Bool := c.isDigit || c == '.' || c == 'e' || c == 'E' || isSign c

/-- After a value comes another character, or nothing. -/
def Ends (rest : Text) : Prop := ∀ c ∈ rest.head?, goesOn c = false

def constants : List Text := ["NaN".toList, "Infinity".toList, "-Infinity".toList]

def isLiteral (t : Text) : Bool := scanNumber t = some t || constants.contains t

theorem takeWhile_append_of_ends {p : Char → Bool} (hp : ∀ c, p c = true → goesOn c = true) {rest : Text}
    (hrest : Ends rest) (t : Text) : (t ++ rest).takeWhile p = t.takeWhile p := by
  induction t with
  | nil =>
    cases rest with
    | nil => rfl
    | cons c rest =>
      have hc : p c = false := by
        by_contra h
        exact absurd (hp c (by simpa using h)) (by simp [hrest c rfl])
      rw [List.nil_append, List.takeWhile_cons_of_neg (by simp [hc]), List.takeWhile_nil]
  | cons c t ih =>
    rw [List.cons_append, List.takeWhile_cons, List.takeWhile_cons, ih]

theorem goesOn_of_isDigit {c : Char} (h : c.isDigit = true) : goesOn c = true := by simp [goesOn, h]

theorem goesOn_of_isSign {c : Char} (h : isSign c = true) : goesOn c = true := by simp [goesOn, h]

section Append

variable {rest : Text} (hrest : Ends rest)
include hrest

theorem scanFraction_append (t : Text) : scanFraction (t ++ rest) = scanFraction t := by
  cases t with
  | nil =>
    cases rest with
    | nil => rfl
    | cons c rest =>
      have hdot : c ≠ '.' := by
        rintro rfl
        exact absurd (hrest '.' rfl) (by decide)
      rw [List.nil_append, scanFraction, scanFraction]
      · exact fun _ h => by cases h
      · exact fun _ h => hdot (List.cons.inj h).1
  | cons c t =>
    by_cases hdot : c = '.'
    · subst hdot
      rw [List.cons_append, scanFraction, scanFraction, takeWhile_append_of_ends (fun _ => goesOn_of_isDigit) hrest]
    · rw [List.cons_append, scanFraction, scanFraction] <;> exact fun _ h => hdot (List.cons.inj h).1

theorem scanExponent_append (t : Text) : scanExponent (t ++ rest) = scanExponent t := by
  cases t with
  | nil =>
    cases rest with
    | nil => rfl
    | cons c rest =>
      rw [List.nil_append, scanExponent, scanExponent, if_neg]
      rintro ⟨rfl | rfl, -⟩ <;> exact absurd (hrest _ rfl) (by decide)
  | cons c t =>
    have hsign := takeWhile_append_of_ends (fun _ => goesOn_of_isSign) hrest t
    have hdrop : (t ++ rest).drop (t.takeWhile isSign).length = t.drop (t.takeWhile isSign).length ++ rest :=
      List.drop_append_of_le_length (List.takeWhile_prefix isSign).length_le
    rw [List.cons_append, scanExponent, scanExponent, hsign]
    simp only [hdrop, takeWhile_append_of_ends (fun _ => goesOn_of_isDigit) hrest]

end Append

theorem length_scanFraction_le (t : Text) : (scanFraction t).length ≤ t.length := by
  unfold scanFraction
  split
  · split
    · exact Nat.zero_le _
    · exact Nat.succ_le_succ (List.takeWhile_prefix _).length_le
  · exact Nat.zero_le _

/-- A number is read up to where it ends. -/
theorem scanNumber_append {t : Text} (h : scanNumber t ≠ none) {rest : Text} (hrest : Ends rest) :
    scanNumber (t ++ rest) = scanNumber t := by
  have ht : t ≠ [] := by
    rintro rfl
    exact h rfl
  unfold scanNumber at h ⊢
  dsimp only at h ⊢
  rw [List.head?_append_of_ne_nil _ ht]
  have hsign : (if t.head? = some '-' then ['-'] else []).length ≤ t.length := by
    split
    · exact List.length_pos_iff.mpr ht
    · exact Nat.zero_le _
  generalize (if t.head? = some '-' then ['-'] else []) = sign at h hsign ⊢
  rw [List.drop_append_of_le_length hsign]
  generalize t.drop sign.length = body at h ⊢
  have hbody : body ≠ [] := by
    rintro rfl
    exact h rfl
  rw [List.head?_append_of_ne_nil _ hbody, takeWhile_append_of_ends (fun _ => goesOn_of_isDigit) hrest]
  have hint : (if body.head? = some '0' then ['0'] else body.takeWhile Char.isDigit).length ≤ body.length := by
    split
    · exact List.length_pos_iff.mpr hbody
    · exact (List.takeWhile_prefix _).length_le
  rw [List.drop_append_of_le_length hint, scanFraction_append hrest,
    List.drop_append_of_le_length (length_scanFraction_le _), scanExponent_append hrest]

theorem goesOn_of_scanFraction {t : Text} {c : Char} (h : c ∈ scanFraction t) : goesOn c = true := by
  unfold scanFraction at h
  split at h
  · split at h
    · cases h
    · obtain rfl | h := List.mem_cons.mp h
      · rfl
      · exact goesOn_of_isDigit (List.mem_takeWhile_imp h)
  · cases h

theorem goesOn_of_scanExponent {t : Text} {c : Char} (h : c ∈ scanExponent t) : goesOn c = true := by
  cases t with
  | nil => cases h
  | cons e t =>
    rw [scanExponent] at h
    split at h
    next he =>
      rw [List.cons_append, List.mem_cons, List.mem_append] at h
      obtain rfl | h | h := h
      · obtain ⟨rfl | rfl, -⟩ := he <;> rfl
      · exact goesOn_of_isSign (List.mem_takeWhile_imp h)
      · exact goesOn_of_isDigit (List.mem_takeWhile_imp h)
    · cases h

theorem goesOn_of_scanNumber {t literal : Text} (h : scanNumber t = some literal) {c : Char} (hc : c ∈ literal) :
    goesOn c = true := by
  unfold scanNumber at h
  extract_lets sign body int rest fraction exponent at h
  rw [Option.ite_none_left_eq_some, Option.some_inj] at h
  rw [← h.2, List.mem_append, List.mem_append, List.mem_append] at hc
  obtain ((hc | hc) | hc) | hc := hc
  · simp only [sign, List.mem_ite_nil_right, List.mem_singleton] at hc
    rw [hc.2]
    rfl
  · unfold int at hc
    split at hc
    · rw [List.mem_singleton.mp hc]
      rfl
    · exact goesOn_of_isDigit (List.mem_takeWhile_imp hc)
  · exact goesOn_of_scanFraction hc
  · exact goesOn_of_scanExponent hc

theorem isBlank_of_goesOn {c : Char} (h : goesOn c = true) : isBlank c = false := by
  by_contra hblank
  simp only [isBlank, Bool.not_eq_false, Bool.or_eq_true, beq_iff_eq] at hblank
  obtain ((rfl | rfl) | rfl) | rfl := hblank <;> exact absurd h (by decide)

/-- The first character of a number. -/
theorem head_of_scanNumber {c : Char} {t : Text} (h : scanNumber (c :: t) ≠ none) : c = '-' ∨ c.isDigit = true := by
  by_contra hc
  rw [not_or] at hc
  apply h
  have hzero : c ≠ '0' := by
    rintro rfl
    exact hc.2 rfl
  unfold scanNumber
  simp [hc.1, hc.2, hzero]

theorem digit_of_scanNumber_minus {t : Text} (h : scanNumber ('-' :: t) ≠ none) :
    ∃ c u, t = c :: u ∧ c.isDigit = true := by
  cases t with
  | nil => exact absurd rfl h
  | cons c u =>
    refine ⟨c, u, rfl, ?_⟩
    by_contra hc
    apply h
    have hzero : c ≠ '0' := by
      rintro rfl
      exact hc rfl
    unfold scanNumber
    simp [hc, hzero]

/-- No other token starts as a number does. -/
theorem find_words {c : Char} {t : Text} (h : scanNumber (c :: t) ≠ none) (rest : Text) :
    words.find? (·.1.isPrefixOf (c :: t ++ rest)) = none := by
  have hwords : ∀ p ∈ words, 2 ≤ p.1.length ∧ ∀ a ∈ p.1, a.isDigit = false := by decide
  rw [List.find?_eq_none]
  rintro ⟨word, v⟩ hp hbegins
  obtain ⟨hlen, hdigits⟩ := hwords _ hp
  match word, hlen with
  | a :: b :: u, _ =>
  have ha := hdigits a (by simp)
  have hb := hdigits b (by simp)
  rw [List.cons_append, List.isPrefixOf_cons_cons, Bool.and_eq_true, beq_iff_eq] at hbegins
  obtain ⟨rfl, hbegins⟩ := hbegins
  obtain rfl | hdigit := head_of_scanNumber h
  · obtain ⟨d, u, rfl, hd⟩ := digit_of_scanNumber_minus h
    rw [List.cons_append, List.isPrefixOf_cons_cons, Bool.and_eq_true, beq_iff_eq] at hbegins
    exact absurd (hbegins.1 ▸ hd) (by simp [hb])
  · exact absurd hdigit (by simp [ha])

theorem nextToken_literal {t : Text} (h : isLiteral t = true) {rest : Text} (hrest : Ends rest) :
    nextToken (t ++ rest) = (.scalar (.number t), t.length) := by
  rw [isLiteral, Bool.or_eq_true, decide_eq_true_eq, List.contains_iff_mem] at h
  obtain h | h := h
  · have hsome : scanNumber t ≠ none := by simp [h]
    cases t with
    | nil => exact absurd rfl hsome
    | cons c t =>
      have hc := head_of_scanNumber hsome
      have hne : ∀ d ∈ ['[', ']', '{', '}', ':', ',', '"'], c ≠ d := by
        rintro d hd rfl
        obtain rfl | hdigit := hc
        · revert hd; decide
        · have hall : ∀ d ∈ ['[', ']', '{', '}', ':', ',', '"'], d.isDigit = false := by decide
          exact absurd hdigit (by simp [hall c hd])
      simp only [List.forall_mem_cons, List.not_mem_nil, false_implies, implies_true, and_true] at hne
      have hread := (scanNumber_append hsome hrest).trans h
      rw [List.cons_append] at hread ⊢
      rw [nextToken, ← List.cons_append, find_words hsome, List.cons_append, hread] <;> simp_all
  · simp only [constants, List.mem_cons, List.not_mem_nil, or_false] at h
    obtain rfl | rfl | rfl := h <;> rfl

/-- Digits without leading zeros, not too many. -/
theorem isLiteral_of_digits {t : Text} (hdigits : ∀ c ∈ t, c.isDigit = true) (hne : t ≠ [])
    (hzero : t.head? = some '0' → t = ['0']) (hlen : t.length ≤ maxDigits) : isLiteral t = true := by
  rw [isLiteral, Bool.or_eq_true, decide_eq_true_eq]
  left
  have hsign : t.head? ≠ some '-' := by
    intro h
    exact absurd (hdigits '-' (List.mem_of_mem_head? h)) (by decide)
  by_cases h : t.head? = some '0'
  · rw [hzero h]
    rfl
  · have hall : t.takeWhile Char.isDigit = t := List.takeWhile_eq_self_iff.mpr hdigits
    unfold scanNumber
    rw [if_neg hsign]
    simp only [List.length_nil, List.drop_zero, if_neg h, hall, List.drop_length, scanFraction, scanExponent,
      List.append_nil, List.nil_append, true_and, hne, false_or, Nat.not_lt.mpr hlen, if_false]

theorem head_toDigits {n : ℕ} (h : n ≠ 0) : (Nat.toDigits 10 n).head? ≠ some '0' := by
  induction n using Nat.strong_induction_on with
  | h n ih =>
    obtain hlt | hge := lt_or_ge n 10
    · rw [Nat.toDigits_of_lt_base hlt]
      simpa using h
    · rw [Nat.toDigits_of_base_le (by decide) hge,
        List.head?_append_of_ne_nil _ (List.ne_nil_of_length_pos Nat.length_toDigits_pos)]
      exact ih (n / 10) (by omega) (by omega)

theorem isLiteral_toDigits {n : ℕ} (h : (Nat.toDigits 10 n).length ≤ maxDigits) :
    isLiteral (Nat.toDigits 10 n) = true := by
  apply isLiteral_of_digits (fun c hc => Nat.isDigit_of_mem_toDigits (by decide) (by decide) hc)
    (List.ne_nil_of_length_pos Nat.length_toDigits_pos) _ h
  intro hzero
  by_cases hn : n = 0
  · rw [hn]
    rfl
  · exact absurd hzero (head_toDigits hn)

/-! ### Values -/

mutual

/-- `json.dumps`; a number is written as it is. -/
def dumps : Json → Text
  | .null => "null".toList
  | .bool b => if b then "true".toList else "false".toList
  | .number literal => literal
  | .string s => quoted s
  | .array items => '[' :: dumpsItems [] items ++ [']']
  | .object members => '{' :: dumpsMembers [] members ++ ['}']

/-- With what stands before the first item. -/
def dumpsItems (before : Text) : List Json → Text
  | [] => []
  | v :: items => before ++ dumps v ++ dumpsItems ", ".toList items

def dumpsMembers (before : Text) : List (Str × Json) → Text
  | [] => []
  | m :: members => before ++ dumpsMember m ++ dumpsMembers ", ".toList members

def dumpsMember : Str × Json → Text
  | (key, v) => quoted key ++ ": ".toList ++ dumps v

end

mutual

def toTokens : Json → List Token
  | .string s => [.string s]
  | .array items => .openArray :: itemTokens [] items ++ [.closeArray]
  | .object members => .openObject :: memberTokens [] members ++ [.closeObject]
  | .null => [.scalar .null]
  | .bool b => [.scalar (.bool b)]
  | .number literal => [.scalar (.number literal)]

def itemTokens (before : List Token) : List Json → List Token
  | [] => []
  | v :: items => before ++ toTokens v ++ itemTokens [.comma] items

def memberTokens (before : List Token) : List (Str × Json) → List Token
  | [] => []
  | m :: members => before ++ oneMemberTokens m ++ memberTokens [.comma] members

def oneMemberTokens : Str × Json → List Token
  | (key, v) => [.string key, .colon] ++ toTokens v

end

mutual

/-- How many containers are open at once in a value. -/
def height : Json → ℕ
  | .array items => itemsHeight items + 1
  | .object members => membersHeight members + 1
  | _ => 0

def itemsHeight : List Json → ℕ
  | [] => 0
  | v :: items => max (height v) (itemsHeight items)

def membersHeight : List (Str × Json) → ℕ
  | [] => 0
  | m :: members => max (memberHeight m) (membersHeight members)

def memberHeight : Str × Json → ℕ
  | (_, v) => height v

end

mutual

/-- What survives being written and read. -/
def isPlain : Json → Bool
  | .null => true
  | .bool _ => true
  | .number literal => isLiteral literal
  | .string s => isSeparate s
  | .array items => plainItems items
  | .object members => decide (members.map Prod.fst).Nodup && plainMembers members

def plainItems : List Json → Bool
  | [] => true
  | v :: items => isPlain v && plainItems items

def plainMembers : List (Str × Json) → Bool
  | [] => true
  | m :: members => plainMember m && plainMembers members

def plainMember : Str × Json → Bool
  | (key, v) => isSeparate key && isPlain v

end

theorem dumps_array (items : List Json) (rest : Text) :
    dumps (.array items) ++ rest = '[' :: (dumpsItems [] items ++ ']' :: rest) := by simp [dumps]

theorem dumps_object (members : List (Str × Json)) (rest : Text) :
    dumps (.object members) ++ rest = '{' :: (dumpsMembers [] members ++ '}' :: rest) := by simp [dumps]

theorem toTokens_array (items : List Json) (ts : List Token) :
    toTokens (.array items) ++ ts = .openArray :: (itemTokens [] items ++ .closeArray :: ts) := by simp [toTokens]

theorem toTokens_object (members : List (Str × Json)) (ts : List Token) :
    toTokens (.object members) ++ ts =
      .openObject :: (memberTokens [] members ++ .closeObject :: ts) := by simp [toTokens]

theorem tokens_skip (t rest : Text) : tokens t.length (t ++ rest) = tokens 0 rest := by
  induction t with
  | nil => rfl
  | cons c t ih => exact ih

/-- A token is taken whole. -/
theorem tokens_append {t rest : Text} {token : Token} (hblank : ∃ c ∈ t.head?, isBlank c = false)
    (h : nextToken (t ++ rest) = (token, t.length)) : tokens 0 (t ++ rest) = token :: tokens 0 rest := by
  obtain ⟨c, hc, hblank⟩ := hblank
  cases t with
  | nil => cases hc
  | cons d t =>
    cases hc
    rw [List.cons_append] at h ⊢
    rw [tokens, hblank, if_neg Bool.false_ne_true, h, List.length_cons, Nat.add_sub_cancel, tokens_skip]

theorem tokens_quoted {s : Str} (h : isSeparate s = true) (rest : Text) :
    tokens 0 (quoted s ++ rest) = .string s :: tokens 0 rest :=
  tokens_append ⟨_, rfl, rfl⟩ (nextToken_quoted h rest)

theorem head_of_isLiteral {t : Text} (h : isLiteral t = true) : ∃ c ∈ t.head?, isBlank c = false := by
  rw [isLiteral, Bool.or_eq_true, decide_eq_true_eq, List.contains_iff_mem] at h
  obtain h | h := h
  · cases t with
    | nil => cases h
    | cons c t => exact ⟨c, rfl, isBlank_of_goesOn (goesOn_of_scanNumber h List.mem_cons_self)⟩
  · simp only [constants, List.mem_cons, List.not_mem_nil, or_false] at h
    obtain rfl | rfl | rfl := h <;> exact ⟨_, rfl, rfl⟩

theorem ends_cons {c : Char} (h : goesOn c = false) (rest : Text) : Ends (c :: rest) := by
  rintro d ⟨⟩
  exact h

/-- What comes after an item, a member and the last of them. -/
theorem ends_dumpsItems (items : List Json) (rest : Text) : Ends (dumpsItems ", ".toList items ++ ']' :: rest) := by
  cases items <;> exact ends_cons rfl _

theorem ends_dumpsMembers (members : List (Str × Json)) (rest : Text) :
    Ends (dumpsMembers ", ".toList members ++ '}' :: rest) := by
  cases members <;> exact ends_cons rfl _

mutual

/-- The tokens of what was written, whatever comes after it. -/
theorem tokens_dumps : ∀ {v : Json}, isPlain v = true → ∀ {rest : Text}, Ends rest →
    tokens 0 (dumps v ++ rest) = toTokens v ++ tokens 0 rest
  | .null, _, _, _ => rfl
  | .bool true, _, _, _ => rfl
  | .bool false, _, _, _ => rfl
  | .number _, h, _, hrest => tokens_append (head_of_isLiteral h) (nextToken_literal h hrest)
  | .string _, h, rest, _ => tokens_quoted h rest
  | .array items, h, rest, _ => by
    rw [dumps_array, toTokens_array, ← tokens_dumpsItems [] [] (fun _ => rfl) (show plainItems items = true from h)]
    rfl
  | .object members, h, rest, _ => by
    rw [isPlain, Bool.and_eq_true] at h
    rw [dumps_object, toTokens_object, ← tokens_dumpsMembers [] [] (fun _ => rfl) h.2]
    rfl

theorem tokens_dumpsItems (before : Text) (ts : List Token) (hbefore : ∀ u, tokens 0 (before ++ u) = ts ++ tokens 0 u) :
    ∀ {items : List Json}, plainItems items = true → ∀ rest : Text,
    tokens 0 (dumpsItems before items ++ ']' :: rest) = itemTokens ts items ++ .closeArray :: tokens 0 rest
  | [], _, _ => rfl
  | v :: items, h, rest => by
    rw [plainItems, Bool.and_eq_true] at h
    rw [dumpsItems, itemTokens, List.append_assoc, List.append_assoc, hbefore,
      tokens_dumps h.1 (ends_dumpsItems items rest), tokens_dumpsItems _ [.comma] (fun _ => rfl) h.2,
      List.append_assoc, List.append_assoc]

theorem tokens_dumpsMembers (before : Text) (ts : List Token)
    (hbefore : ∀ u, tokens 0 (before ++ u) = ts ++ tokens 0 u) :
    ∀ {members : List (Str × Json)}, plainMembers members = true → ∀ rest : Text,
    tokens 0 (dumpsMembers before members ++ '}' :: rest) = memberTokens ts members ++ .closeObject :: tokens 0 rest
  | [], _, _ => rfl
  | m :: members, h, rest => by
    rw [plainMembers, Bool.and_eq_true] at h
    rw [dumpsMembers, memberTokens, List.append_assoc, List.append_assoc, hbefore,
      tokens_dumpsMember h.1 (ends_dumpsMembers members rest), tokens_dumpsMembers _ [.comma] (fun _ => rfl) h.2,
      List.append_assoc, List.append_assoc]

theorem tokens_dumpsMember : ∀ {m : Str × Json}, plainMember m = true → ∀ {rest : Text}, Ends rest →
    tokens 0 (dumpsMember m ++ rest) = oneMemberTokens m ++ tokens 0 rest
  | (key, v), h, rest, hrest => by
    rw [plainMember, Bool.and_eq_true] at h
    rw [dumpsMember, oneMemberTokens, List.append_assoc, List.append_assoc, tokens_quoted h.1,
      show tokens 0 (": ".toList ++ (dumps v ++ rest)) = .colon :: tokens 0 (dumps v ++ rest) from rfl,
      tokens_dumps h.2 hrest]
    rfl

end

/-! ### Reading back -/

/-- A container of this height may still be opened inside the stack. -/
def Room (limit : Option ℕ) (stack : List Frame) (n : ℕ) : Prop := ∀ l ∈ limit, stack.length + n ≤ l

theorem Room.mono {limit : Option ℕ} {stack : List Frame} {m n : ℕ} (h : Room limit stack n) (hmn : m ≤ n) :
    Room limit stack m := fun l hl => le_trans (Nat.add_le_add_left hmn _) (h l hl)

theorem Room.fits {limit : Option ℕ} {stack : List Frame} {n : ℕ} (h : Room limit stack (n + 1)) :
    Json.fits limit stack = true := by
  cases limit with
  | none => rfl
  | some l =>
    have := h l rfl
    simp only [Json.fits, Option.all_some, decide_eq_true_eq]
    omega

theorem Room.push {limit : Option ℕ} {stack : List Frame} {n : ℕ} (h : Room limit stack (n + 1)) (frame : Frame) :
    Room limit (frame :: stack) n := by
  intro l hl
  have := h l hl
  rw [List.length_cons]
  omega

theorem setKey_of_notMem {key : Str} {members : List (Str × Json)} (h : key ∉ members.map Prod.fst) (v : Json) :
    setKey key v members = members ++ [(key, v)] := by
  rw [setKey, List.filter_eq_self.mpr]
  intro m hm
  have : m.1 ≠ key := by
    rintro rfl
    exact h (List.mem_map_of_mem hm)
  simpa using this

theorem notMem_of_nodup {key : Str} {before after : List Str} (h : (before ++ key :: after).Nodup) : key ∉ before :=
  fun hkey => (List.nodup_append.mp h).2.2 key hkey key List.mem_cons_self rfl

/-- No value starts with the end of an array. -/
theorem run_first (limit : Option ℕ) (stack : List Frame) (v : Json) (ts : List Token) :
    run limit (.first stack) (toTokens v ++ ts) = run limit (.value (.array [] :: stack)) (toTokens v ++ ts) := by
  cases v with
  | null | bool | number | string => rfl
  | array | object =>
    rw [toTokens, List.cons_append, List.cons_append, run_cons, run_cons, step_first (by rintro ⟨⟩)]
    rfl

/-- A member up to its value. -/
theorem run_key (limit : Option ℕ) (done : List (Str × Json)) (stack : List Frame) (mayClose : Bool) (m : Str × Json)
    (ts : List Token) :
    run limit (.key done stack mayClose) (oneMemberTokens m ++ ts) =
      run limit (.value (.object done m.1 :: stack)) (toTokens m.2 ++ ts) := by
  obtain ⟨key, v⟩ := m
  cases mayClose <;> rfl

variable {limit : Option ℕ}

/-- An opening bracket where there is room for it. -/
theorem run_openArray {stack : List Frame} {n : ℕ} (h : Room limit stack (n + 1)) (ts : List Token) :
    run limit (.value stack) (.openArray :: ts) = run limit (.first stack) ts := by
  rw [run_cons, step, start, if_pos h.fits]
  rfl

theorem run_openObject {stack : List Frame} {n : ℕ} (h : Room limit stack (n + 1)) (ts : List Token) :
    run limit (.value stack) (.openObject :: ts) = run limit (.key [] stack true) ts := by
  rw [run_cons, step, start, if_pos h.fits]
  rfl

mutual

/-- Where a value is due, the machine reads the tokens of one. -/
theorem run_toTokens : ∀ {v : Json}, isPlain v = true → ∀ {stack : List Frame}, Room limit stack (height v) →
    ∀ ts : List Token, run limit (.value stack) (toTokens v ++ ts) = run limit (.after v stack) ts
  | .null, _, _, _, _ => rfl
  | .bool _, _, _, _, _ => rfl
  | .number _, _, _, _, _ => rfl
  | .string _, _, _, _, _ => rfl
  | .array [], _, stack, hroom, ts => by
    rw [toTokens_array, run_openArray hroom]
    rfl
  | .array (v :: items), h, stack, hroom, ts => by
    rw [isPlain, plainItems, Bool.and_eq_true] at h
    have hv := (hroom.push (.array [])).mono (le_max_left _ _)
    have hitems := hroom.mono (Nat.succ_le_succ (le_max_right _ _))
    rw [toTokens_array, run_openArray hroom, itemTokens, List.nil_append, List.append_assoc, run_first,
      run_toTokens h.1 hv, run_itemTokens h.2 [] hitems]
    rfl
  | .object [], _, stack, hroom, ts => by
    rw [toTokens_object, run_openObject hroom]
    rfl
  | .object ((key, v) :: members), h, stack, hroom, ts => by
    rw [isPlain, plainMembers, plainMember, Bool.and_eq_true, decide_eq_true_eq, Bool.and_eq_true,
      Bool.and_eq_true] at h
    have hv := (hroom.push (.object [] key)).mono (le_max_left _ _)
    have hmembers := hroom.mono (Nat.succ_le_succ (le_max_right _ _))
    rw [toTokens_object, run_openObject hroom, memberTokens, List.nil_append, List.append_assoc, run_key,
      run_toTokens h.2.1.2 hv, run_memberTokens h.2.2 [] h.1 hmembers]
    rfl

theorem run_itemTokens : ∀ {items : List Json}, plainItems items = true → ∀ {stack : List Frame} (done : List Json),
    Room limit stack (itemsHeight items + 1) → ∀ (v : Json) (ts : List Token),
    run limit (.after v (.array done :: stack)) (itemTokens [.comma] items ++ .closeArray :: ts) =
      run limit (.after (.array (done ++ v :: items)) stack) ts
  | [], _, _, _, _, _, _ => rfl
  | w :: items, h, stack, done, hroom, v, ts => by
    rw [plainItems, Bool.and_eq_true] at h
    have hw := (hroom.push (.array (done ++ [v]))).mono (le_max_left _ _)
    have hitems := hroom.mono (Nat.succ_le_succ (le_max_right _ _))
    rw [itemTokens, List.append_assoc, List.append_assoc, List.singleton_append, run_cons]
    refine (run_toTokens h.1 hw _).trans ?_
    rw [run_itemTokens h.2 (done ++ [v]) hitems, List.append_assoc]
    rfl

theorem run_memberTokens : ∀ {members : List (Str × Json)}, plainMembers members = true → ∀ {stack : List Frame}
    (done : List (Str × Json)) {key : Str}, (done.map Prod.fst ++ key :: members.map Prod.fst).Nodup →
    Room limit stack (membersHeight members + 1) → ∀ (v : Json) (ts : List Token),
    run limit (.after v (.object done key :: stack)) (memberTokens [.comma] members ++ .closeObject :: ts) =
      run limit (.after (.object (done ++ (key, v) :: members)) stack) ts
  | [], _, stack, done, key, hkeys, _, v, ts => by
    rw [← setKey_of_notMem (notMem_of_nodup hkeys)]
    rfl
  | (next, w) :: members, h, stack, done, key, hkeys, hroom, v, ts => by
    rw [plainMembers, plainMember, Bool.and_eq_true, Bool.and_eq_true] at h
    have hw := (hroom.push (.object (done ++ [(key, v)]) next)).mono (le_max_left _ _)
    have hmembers := hroom.mono (Nat.succ_le_succ (le_max_right _ _))
    have hnext : ((done ++ [(key, v)]).map Prod.fst ++ next :: members.map Prod.fst).Nodup := by simpa using hkeys
    rw [memberTokens, List.append_assoc, List.append_assoc, List.singleton_append, run_cons]
    refine (run_key limit (setKey key v done) stack false (next, w) _).trans ?_
    rw [setKey_of_notMem (notMem_of_nodup hkeys), run_toTokens h.1.2 hw, run_memberTokens h.2 _ hnext hmembers,
      List.append_assoc]
    rfl

end

/-- What was written is read back, whatever blanks come after it. -/
theorem loads_dumps {v : Json} (h : isPlain v = true) (hheight : ∀ l ∈ limit, height v ≤ l) {blanks : Text}
    (hblanks : ∀ c ∈ blanks, isBlank c = true) : loads limit (dumps v ++ blanks) = .ok v := by
  have hends : Ends blanks := by
    intro c hc
    by_contra hgoes
    have hblank := hblanks c (List.mem_of_mem_head? hc)
    rw [isBlank_of_goesOn (by simpa using hgoes)] at hblank
    cases hblank
  have hnone : tokens 0 blanks = [] := by
    clear hends
    induction blanks with
    | nil => rfl
    | cons c blanks ih =>
      rw [List.forall_mem_cons] at hblanks
      rw [tokens, if_pos hblanks.1, ih hblanks.2]
  have hroom : Room limit [] (height v) := fun l hl => (Nat.zero_add _).le.trans (hheight l hl)
  rw [loads, tokens_dumps h hends, hnone, run_toTokens h hroom]
  rfl

/-! ### In ASCII -/

/-- A character of a line that is ASCII. -/
def isLineChar (c : Char) : Bool := isPrintable c.toNat

theorem isLineChar_of_goesOn {c : Char} (h : goesOn c = true) : isLineChar c = true := by
  rw [isLineChar, isPrintable_iff]
  simp only [goesOn, isSign, Bool.or_eq_true, beq_iff_eq] at h
  obtain (((h | rfl) | rfl) | rfl) | rfl | rfl := h
  · simp only [Char.isDigit, Bool.and_eq_true, decide_eq_true_eq] at h
    have hlow : '0'.toNat ≤ c.toNat := h.1
    have hhigh : c.toNat ≤ '9'.toNat := h.2
    exact ⟨le_trans (by decide) hlow, lt_of_le_of_lt hhigh (by decide)⟩
  all_goals decide

theorem isLineChar_of_isLiteral {t : Text} (h : isLiteral t = true) : ∀ c ∈ t, isLineChar c = true := by
  rw [isLiteral, Bool.or_eq_true, decide_eq_true_eq, List.contains_iff_mem] at h
  obtain h | h := h
  · exact fun c hc => isLineChar_of_goesOn (goesOn_of_scanNumber h hc)
  · have hall : ∀ t ∈ constants, ∀ c ∈ t, isLineChar c = true := by decide
    exact hall t h

theorem isLineChar_digitChar (d : ℕ) : isLineChar (Nat.digitChar d) = true := by
  have hall : ∀ d < 16, isLineChar (Nat.digitChar d) = true := by decide
  obtain hd | hd := lt_or_ge d 16
  · exact hall d hd
  · unfold Nat.digitChar
    iterate 16 rw [if_neg (by omega)]
    rfl

theorem isLineChar_of_escape {n : ℕ} {c : Char} (h : c ∈ escape n) : isLineChar c = true := by
  unfold escape at h
  split at h
  next d hd =>
    have hall : ∀ p ∈ letters, isLineChar p.2 = true := by decide
    obtain rfl | h := List.mem_cons.mp h
    · rfl
    · rw [List.mem_singleton.mp h]
      exact hall _ (mem_letters hd)
  · split at h
    next hn =>
      rw [List.mem_singleton.mp h, isLineChar, Utf8.toNat_ofNat_char (.inl (by rw [isPrintable_iff] at hn; omega))]
      exact hn
    · simp only [hexEscape, List.map_cons, List.map_nil, List.mem_cons, List.not_mem_nil, or_false] at h
      obtain rfl | rfl | rfl | rfl | rfl | rfl := h <;> first | rfl | exact isLineChar_digitChar _

theorem isLineChar_of_quoted {s : Str} : ∀ c ∈ quoted s, isLineChar c = true := by
  intro c hc
  rw [quoted, List.mem_append, List.mem_cons, List.mem_singleton, List.mem_flatMap] at hc
  obtain (rfl | ⟨n, -, hc⟩) | rfl := hc
  · rfl
  · exact isLineChar_of_escape hc
  · rfl

theorem isLineChar_of_separator {before : Text} (h : before = [] ∨ before = ", ".toList) :
    ∀ c ∈ before, isLineChar c = true := by
  obtain rfl | rfl := h
  · simp
  · decide

mutual

/-- What is written is one line of ASCII. -/
theorem isLineChar_of_dumps : ∀ {v : Json}, isPlain v = true → ∀ c ∈ dumps v, isLineChar c = true
  | .null, _ => by decide
  | .bool true, _ => by decide
  | .bool false, _ => by decide
  | .number _, h => isLineChar_of_isLiteral h
  | .string _, _ => isLineChar_of_quoted
  | .array items, h => by
    have hitems := isLineChar_of_dumpsItems (.inl rfl) (show plainItems items = true from h)
    rw [dumps, List.forall_mem_append, List.forall_mem_cons]
    exact ⟨⟨rfl, hitems⟩, by decide⟩
  | .object members, h => by
    rw [isPlain, Bool.and_eq_true] at h
    rw [dumps, List.forall_mem_append, List.forall_mem_cons]
    exact ⟨⟨rfl, isLineChar_of_dumpsMembers (.inl rfl) h.2⟩, by decide⟩

theorem isLineChar_of_dumpsItems {before : Text} (hbefore : before = [] ∨ before = ", ".toList) :
    ∀ {items : List Json}, plainItems items = true → ∀ c ∈ dumpsItems before items, isLineChar c = true
  | [], _ => by simp [dumpsItems]
  | v :: items, h => by
    rw [plainItems, Bool.and_eq_true] at h
    rw [dumpsItems, List.forall_mem_append, List.forall_mem_append]
    exact ⟨⟨isLineChar_of_separator hbefore, isLineChar_of_dumps h.1⟩, isLineChar_of_dumpsItems (.inr rfl) h.2⟩

theorem isLineChar_of_dumpsMembers {before : Text} (hbefore : before = [] ∨ before = ", ".toList) :
    ∀ {members : List (Str × Json)}, plainMembers members = true →
    ∀ c ∈ dumpsMembers before members, isLineChar c = true
  | [], _ => by simp [dumpsMembers]
  | m :: members, h => by
    rw [plainMembers, Bool.and_eq_true] at h
    rw [dumpsMembers, List.forall_mem_append, List.forall_mem_append]
    exact ⟨⟨isLineChar_of_separator hbefore, isLineChar_of_dumpsMember h.1⟩, isLineChar_of_dumpsMembers (.inr rfl) h.2⟩

theorem isLineChar_of_dumpsMember : ∀ {m : Str × Json}, plainMember m = true → ∀ c ∈ dumpsMember m, isLineChar c = true
  | (key, v), h => by
    rw [plainMember, Bool.and_eq_true] at h
    rw [dumpsMember, List.forall_mem_append, List.forall_mem_append]
    exact ⟨⟨isLineChar_of_quoted, by decide⟩, isLineChar_of_dumps h.2⟩

end

end Json

namespace Utf8

/-- The bytes of a text. -/
def encodeText (t : Text) : List UInt8 := t.flatMap fun c => encodeChar c.toNat

theorem encode_toNat (t : Text) : encode (t.map Char.toNat) = some (encodeText t) := by
  rw [encode, if_pos, encodeText, List.flatMap_map]
  simp only [List.all_map, List.all_eq_true, Function.comp_apply, decide_eq_true_eq]
  exact fun c _ => c.valid

theorem decode_encodeText (t : Text) : decode (encodeText t) = some t := by
  rw [decode_of_encode (encode_toNat t), List.map_map]
  exact congrArg some (List.map_id'' (fun c => Char.ofNat_toNat c) t)

theorem encodeText_append (t u : Text) : encodeText (t ++ u) = encodeText t ++ encodeText u := List.flatMap_append

/-- ASCII takes one byte for a character. -/
theorem encodeText_ascii {t : Text} (h : ∀ c ∈ t, c.toNat < 0x80) : encodeText t = t.map fun c => .ofNat c.toNat := by
  induction t with
  | nil => rfl
  | cons c t ih =>
    rw [List.forall_mem_cons] at h
    rw [encodeText, List.flatMap_cons, encodeChar, if_pos h.1, List.map_cons, ← ih h.2]
    rfl

end Utf8
