import Mathlib.Data.List.DropRight
import Mathlib.Data.List.Pairwise

/-! Text as Python handles it: white space, stripping, and the lines of a text with their
line ends. A list of lines is the `splitlines` of one text only if every line but the last
is ended, and then joining the lines and splitting again gives them back. -/

/-- A text as Python reads it from a file, with line ends translated to newlines. -/
abbrev Text := List Char

namespace Text

/-- A check of the characters of a text goes through the text, not through all characters. -/
instance (priority := high) decidableForallMem (p : Char → Prop) [DecidablePred p] (t : Text) :
    Decidable (∀ c ∈ t, p c) :=
  List.decidableBAll p t

/-- `str.isspace`, which is also what `\s` matches. -/
def isSpace (c : Char) : Bool :=
  let n := c.toNat
  (9 ≤ n && n ≤ 13) || (28 ≤ n && n ≤ 32) || n == 0x85 || n == 0xa0 || n == 0x1680 ||
    (0x2000 ≤ n && n ≤ 0x200a) || n == 0x2028 || n == 0x2029 || n == 0x202f || n == 0x205f || n == 0x3000

/-- The characters `str.splitlines` ends a line at. -/
def isBreak (c : Char) : Bool :=
  let n := c.toNat
  (10 ≤ n && n ≤ 13) || (28 ≤ n && n ≤ 30) || n == 0x85 || n == 0x2028 || n == 0x2029

def strip (t : Text) : Text := (t.dropWhile isSpace).rdropWhile isSpace

/-- `t.rstrip("\n")` -/
def rstripNl (t : Text) : Text := t.rdropWhile (· == '\n')

/-- The character in front of the first line. -/
def consFirst (c : Char) : List Text → List Text
  | [] => [[c]]
  | l :: ls => (c :: l) :: ls

/-- `t.splitlines(keepends=True)` -/
def splitlines : Text → List Text
  | [] => []
  | c :: cs => if isBreak c then [c] :: splitlines cs else consFirst c (splitlines cs)

/-- The line without its line end. -/
def chomp (l : Text) : Text := l.rdropWhile isBreak

/-- What follows `key` at the start of the text. -/
def afterPrefix : Text → Text → Option Text
  | [], t => some t
  | _ :: _, [] => none
  | k :: ks, c :: cs => if k = c then afterPrefix ks cs else none

theorem isSpace_of_isBreak {c : Char} (h : isBreak c = true) : isSpace c = true := by
  simp only [isBreak, isSpace, Bool.or_eq_true, Bool.and_eq_true, decide_eq_true_eq, beq_iff_eq] at *
  omega

@[simp] theorem isBreak_newline : isBreak '\n' = true := by decide

@[simp] theorem isSpace_newline : isSpace '\n' = true := by decide

/-! ### Stripping -/

@[simp] theorem rstripNl_newline (t : Text) : rstripNl (t ++ ['\n']) = rstripNl t :=
  List.rdropWhile_concat_pos _ _ _ rfl

@[simp] theorem rstripNl_idem (t : Text) : rstripNl (rstripNl t) = rstripNl t :=
  List.rdropWhile_idempotent _ _

theorem rstripNl_concat {t : Text} {c : Char} (hc : c ≠ '\n') : rstripNl (t ++ [c]) = t ++ [c] :=
  List.rdropWhile_concat_neg _ _ _ (by simpa using hc)

/-- What a newline at the end does not change, no number of them changes. -/
theorem eq_rstripNl {β : Type*} (f : Text → β) (h : ∀ t, f (t ++ ['\n']) = f t) (t : Text) :
    f (rstripNl t) = f t := by
  induction t using List.reverseRecOn with
  | nil => rfl
  | append_singleton t c ih =>
    by_cases hc : c = '\n'
    · rw [hc, rstripNl_newline, ih, h]
    · rw [rstripNl_concat hc]

theorem mem_intercalate {sep : Text} {ls : List Text} {c : Char} (h : c ∈ List.intercalate sep ls) :
    c ∈ sep ∨ ∃ l ∈ ls, c ∈ l := by
  induction ls with
  | nil => simp at h
  | cons l ls ih =>
    cases ls with
    | nil => exact .inr ⟨l, by simpa using h⟩
    | cons m ms =>
      rw [List.intercalate_cons_cons, List.mem_append, List.mem_append] at h
      rcases h with (h | h) | h
      · exact .inr ⟨l, List.mem_cons_self, h⟩
      · exact .inl h
      · exact (ih h).imp_right fun ⟨k, hk, hc⟩ => ⟨k, List.mem_cons_of_mem _ hk, hc⟩

theorem strip_space {c : Char} (hc : isSpace c = true) (t : Text) : strip (t ++ [c]) = strip t := by
  simp only [strip, List.dropWhile_append]
  split
  · rename_i h
    rw [List.isEmpty_iff.mp h, List.dropWhile_cons_of_pos hc]
    rfl
  · exact List.rdropWhile_concat_pos _ _ _ hc

theorem strip_newline (t : Text) : strip (t ++ ['\n']) = strip t := strip_space isSpace_newline t

theorem strip_eq_nil {t : Text} : strip t = [] ↔ ∀ c ∈ t, isSpace c = true := by
  rw [strip, List.rdropWhile_eq_nil_iff]
  constructor
  · intro h c hc
    rw [← List.takeWhile_append_dropWhile (p := isSpace) (l := t), List.mem_append] at hc
    exact hc.elim List.mem_takeWhile_imp (h c)
  · exact fun h c hc => h c (List.dropWhile_sublist _ |>.mem hc)

theorem dropWhile_ne_nil {u : Text} (h : strip u ≠ []) : u.dropWhile isSpace ≠ [] := fun he =>
  h (strip_eq_nil.mpr (List.dropWhile_eq_nil_iff.mp he))

/-- Text that neither starts nor ends with white space is all of its strip. -/
theorem strip_eq_self {t : Text} (hhead : ∀ c ∈ t.head?, isSpace c = false)
    (hlast : ∀ c ∈ t.getLast?, isSpace c = false) : strip t = t := by
  have hd : t.dropWhile isSpace = t := by
    cases t with
    | nil => rfl
    | cons c cs => simp [hhead c rfl]
  rw [strip, hd, List.rdropWhile_eq_self_iff]
  intro hl
  simp [hlast _ (List.getLast?_eq_some_getLast hl)]

theorem strip_strip (t : Text) : strip (strip t) = strip t := by
  by_cases h : strip t = []
  · rw [h]
    rfl
  refine strip_eq_self (fun c hc => ?_) fun c hc => ?_
  · obtain ⟨d, ds, hd⟩ := List.exists_cons_of_ne_nil (dropWhile_ne_nil h)
    have hprefix : strip t <+: t.dropWhile isSpace := List.rdropWhile_prefix _ _
    have hspace := List.head_dropWhile_not isSpace (dropWhile_ne_nil h)
    obtain ⟨e, es, he⟩ := List.exists_cons_of_ne_nil h
    simp only [hd, List.head_cons] at hspace
    rw [he, hd, List.cons_prefix_cons] at hprefix
    rw [he, List.head?_cons, Option.mem_some_iff] at hc
    rw [← hc, hprefix.1, hspace]
  · rw [Option.mem_def, List.getLast?_eq_some_iff] at hc
    obtain ⟨ys, hys⟩ := hc
    have hneg := List.rdropWhile_last_not isSpace (t.dropWhile isSpace) h
    simp only [show List.rdropWhile isSpace (t.dropWhile isSpace) = ys ++ [c] from hys, List.getLast_concat] at hneg
    simpa using hneg

/-- Some text without white space. -/
def IsWord (t : Text) : Prop := t ≠ [] ∧ ∀ c ∈ t, isSpace c = false

instance (t : Text) : Decidable (IsWord t) := inferInstanceAs (Decidable (_ ∧ _))

theorem IsWord.strip {t : Text} (h : IsWord t) : strip t = t :=
  strip_eq_self (fun c hc => h.2 c (List.mem_of_mem_head? hc)) fun c hc => h.2 c (List.mem_of_getLast? hc)

theorem IsWord.unbroken {t : Text} (h : IsWord t) : ∀ c ∈ t, isBreak c = false := by
  intro c hc
  by_contra hb
  rw [Bool.not_eq_false] at hb
  exact absurd (isSpace_of_isBreak hb) (by simp [h.2 c hc])

theorem IsWord.dropWhile {t : Text} (h : IsWord t) (u : Text) : (t ++ u).dropWhile isSpace = t ++ u := by
  obtain ⟨c, cs, rfl⟩ := List.exists_cons_of_ne_nil h.1
  simp [h.2 c List.mem_cons_self]

theorem IsWord.rstripNl {t u : Text} (h : IsWord u) : rstripNl (t ++ u) = t ++ u := by
  rcases List.eq_nil_or_concat u with rfl | ⟨v, c, rfl⟩
  · exact absurd rfl h.1
  · rw [List.concat_eq_append, ← List.append_assoc]
    refine rstripNl_concat ?_
    rintro rfl
    simpa using h.2 '\n' (by simp)

theorem strip_pad {u : Text} (h : ∀ c ∈ u, isSpace c = true) (t : Text) : Text.strip (u ++ t) = Text.strip t := by
  rw [Text.strip, Text.strip, List.dropWhile_append_of_pos h]

@[simp] theorem afterPrefix_self (key t : Text) : afterPrefix key (key ++ t) = some t := by
  induction key with
  | nil => rfl
  | cons k ks ih => simp [afterPrefix, ih]

/-- Two keys that differ somewhere are not prefixes of one text. -/
theorem afterPrefix_eq_some {key t rest : Text} (h : afterPrefix key t = some rest) : t = key ++ rest := by
  induction key generalizing t with
  | nil => exact Option.some.inj h
  | cons k ks ih =>
    cases t with
    | nil => cases h
    | cons c cs =>
      rw [afterPrefix] at h
      split_ifs at h with hk
      rw [hk, ih h]
      rfl

theorem afterPrefix_of_diverge {key other : Text} (h : (key.zip other).any fun p => p.1 != p.2) (t : Text) :
    afterPrefix key (other ++ t) = none := by
  induction key generalizing other with
  | nil => simp at h
  | cons k ks ih =>
    cases other with
    | nil => simp at h
    | cons c cs =>
      rw [List.cons_append, afterPrefix]
      split
      · rename_i hk
        exact ih (by simpa [hk] using h)
      · rfl

/-! ### Lines -/

/-- Nothing that is added can join the last line: the text is empty or its last line is ended. -/
def Ended (t : Text) : Prop := ∀ c ∈ t.getLast?, isBreak c = true

instance (t : Text) : Decidable (Ended t) := inferInstanceAs (Decidable (∀ c ∈ t.getLast?, _))

/-- One line: not empty, with no line end before its last character. -/
def IsLine (l : Text) : Prop := l ≠ [] ∧ ∀ c ∈ l.dropLast, isBreak c = false

/-- The lines of one text. -/
def AreLines (ls : List Text) : Prop := (∀ l ∈ ls, IsLine l) ∧ ls.Pairwise fun l _ => Ended l

theorem ended_nil : Ended [] := by simp [Ended]

theorem ended_concat {t : Text} {c : Char} : Ended (t ++ [c]) ↔ isBreak c = true := by
  simp [Ended]

theorem Ended.append {u v : Text} (hu : Ended u) (hv : Ended v) : Ended (u ++ v) := by
  rcases List.eq_nil_or_concat v with rfl | ⟨v, c, rfl⟩
  · simpa using hu
  · rw [List.concat_eq_append] at hv ⊢
    rw [← List.append_assoc, ended_concat]
    exact ended_concat.mp hv

theorem isLine_concat {l : Text} {c : Char} : IsLine (l ++ [c]) ↔ ∀ d ∈ l, isBreak d = false := by
  simp [IsLine]

theorem Ended.of_cons {c d : Char} {cs : Text} (h : Ended (c :: d :: cs)) : Ended (d :: cs) := by
  simpa [Ended, List.getLast?_cons_cons] using h

theorem splitlines_break {c : Char} (h : isBreak c = true) (cs : Text) :
    splitlines (c :: cs) = [c] :: splitlines cs := by
  simp [splitlines, h]

theorem splitlines_unbroken {c : Char} (h : isBreak c = false) (cs : Text) :
    splitlines (c :: cs) = consFirst c (splitlines cs) := by
  simp [splitlines, h]

theorem consFirst_ne_nil (c : Char) (ls : List Text) : consFirst c ls ≠ [] := by
  cases ls <;> simp [consFirst]

theorem consFirst_append {c : Char} {ls : List Text} (h : ls ≠ []) (ms : List Text) :
    consFirst c (ls ++ ms) = consFirst c ls ++ ms := by
  cases ls with
  | nil => contradiction
  | cons l ls => rfl

@[simp] theorem flatten_consFirst (c : Char) (ls : List Text) : (consFirst c ls).flatten = c :: ls.flatten := by
  cases ls <;> rfl

theorem splitlines_ne_nil {t : Text} (h : t ≠ []) : splitlines t ≠ [] := by
  cases t with
  | nil => contradiction
  | cons c cs =>
    rw [splitlines]
    split
    · simp
    · exact consFirst_ne_nil c _

theorem splitlines_append {u : Text} (hu : Ended u) (v : Text) :
    splitlines (u ++ v) = splitlines u ++ splitlines v := by
  induction u with
  | nil => rfl
  | cons c cs ih =>
    by_cases hc : isBreak c = true
    · have hcs : Ended cs := by
        cases cs with
        | nil => exact ended_nil
        | cons d ds => exact hu.of_cons
      rw [List.cons_append, splitlines_break hc, splitlines_break hc, ih hcs, List.cons_append]
    · cases cs with
      | nil => exact absurd (hu c rfl) hc
      | cons d ds =>
        simp only [Bool.not_eq_true] at hc
        rw [List.cons_append, splitlines_unbroken hc, splitlines_unbroken hc, ih hu.of_cons,
          consFirst_append (splitlines_ne_nil (List.cons_ne_nil d ds))]

@[simp] theorem flatten_splitlines (t : Text) : (splitlines t).flatten = t := by
  induction t with
  | nil => rfl
  | cons c cs ih =>
    rw [splitlines]
    split
    · simp [ih]
    · simp [ih]

theorem splitlines_of_unbroken {l : Text} (hne : l ≠ []) (h : ∀ c ∈ l, isBreak c = false) :
    splitlines l = [l] := by
  induction l with
  | nil => contradiction
  | cons c cs ih =>
    rw [splitlines_unbroken (h c List.mem_cons_self)]
    cases cs with
    | nil => rfl
    | cons d ds =>
      rw [ih (by simp) fun e he => h e (List.mem_cons_of_mem _ he)]
      rfl

theorem splitlines_of_isLine {l : Text} (h : IsLine l) : splitlines l = [l] := by
  rcases List.eq_nil_or_concat l with rfl | ⟨l, c, rfl⟩
  · exact absurd rfl h.1
  rw [List.concat_eq_append] at h ⊢
  rw [isLine_concat] at h
  by_cases hc : isBreak c = true
  · induction l with
    | nil => exact splitlines_break hc []
    | cons d ds ih =>
      rw [List.cons_append, splitlines_unbroken (h d List.mem_cons_self),
        ih fun e he => h e (List.mem_cons_of_mem _ he)]
      rfl
  · refine splitlines_of_unbroken (by simp) fun d hd => ?_
    rcases List.mem_append.mp hd with hd | hd
    · exact h d hd
    · simpa [List.mem_singleton.mp hd] using hc

/-- Joined lines split back into the same lines. -/
theorem splitlines_flatten {ls : List Text} (h : AreLines ls) : splitlines ls.flatten = ls := by
  induction ls with
  | nil => rfl
  | cons l ls ih =>
    obtain ⟨hl, hp⟩ := h
    have hls := ih ⟨fun m hm => hl m (List.mem_cons_of_mem _ hm), hp.of_cons⟩
    cases ls with
    | nil => simpa using splitlines_of_isLine (hl l List.mem_cons_self)
    | cons m ls =>
      have hend : Ended l := List.rel_of_pairwise_cons hp List.mem_cons_self
      rw [List.flatten_cons, splitlines_append hend, hls, splitlines_of_isLine (hl l List.mem_cons_self)]
      rfl

theorem AreLines.sublist {ls ms : List Text} (h : AreLines ls) (hs : ms.Sublist ls) : AreLines ms :=
  ⟨fun l hl => h.1 l (hs.mem hl), h.2.sublist hs⟩

theorem AreLines.consFirst {ls : List Text} (h : AreLines ls) {c : Char} (hc : isBreak c = false) :
    AreLines (consFirst c ls) := by
  cases ls with
  | nil => exact ⟨by simp [Text.consFirst, IsLine], List.pairwise_singleton _ _⟩
  | cons l ls =>
    obtain ⟨hl, hp⟩ := h
    obtain ⟨hne, hbody⟩ := hl l List.mem_cons_self
    obtain ⟨d, ds, rfl⟩ := List.exists_cons_of_ne_nil hne
    constructor
    · rintro m (- | ⟨-, hm⟩)
      · refine ⟨by simp, ?_⟩
        rintro e (- | ⟨-, he⟩)
        · exact hc
        · exact hbody e he
      · exact hl m (List.mem_cons_of_mem _ hm)
    · rw [List.pairwise_cons] at hp
      refine List.pairwise_cons.mpr ⟨fun m hm => ?_, hp.2⟩
      simpa [Ended, List.getLast?_cons_cons] using hp.1 m hm

theorem areLines_splitlines (t : Text) : AreLines (splitlines t) := by
  induction t with
  | nil => exact ⟨by simp [splitlines], List.Pairwise.nil⟩
  | cons c cs ih =>
    rw [splitlines]
    split
    · rename_i hc
      refine ⟨?_, ih.2.cons fun _ _ => by simpa [Ended] using hc⟩
      rintro l (- | ⟨-, hl⟩)
      · simp [IsLine]
      · exact ih.1 l hl
    · rename_i hc
      exact ih.consFirst (by simpa using hc)

/-- A newline at the end of a text either is a line of its own or ends the last line. -/
theorem splitlines_newline (t : Text) :
    splitlines (t ++ ['\n']) = splitlines t ++ [['\n']] ∨
      ∃ ls l, (∀ c ∈ l, isBreak c = false) ∧ splitlines t = ls ++ [l] ∧
        splitlines (t ++ ['\n']) = ls ++ [l ++ ['\n']] := by
  by_cases ht : Ended t
  · exact .inl (splitlines_append ht _)
  have hlines := areLines_splitlines t
  have hflat := flatten_splitlines t
  rcases List.eq_nil_or_concat (splitlines t) with h | ⟨ls, l, h⟩
  · rw [h] at hflat
    exact absurd (hflat ▸ ended_nil) ht
  rw [List.concat_eq_append] at h
  rw [h] at hlines hflat
  rw [List.flatten_append, List.flatten_singleton] at hflat
  have hlast : ∀ c ∈ l, isBreak c = false := by
    rcases List.eq_nil_or_concat l with rfl | ⟨k, c, rfl⟩
    · simp
    rw [List.concat_eq_append] at *
    have hk := isLine_concat.mp (hlines.1 (k ++ [c]) (by simp))
    rw [← hflat, ← List.append_assoc, ended_concat, Bool.not_eq_true] at ht
    intro d hd
    rcases List.mem_append.mp hd with hd | hd
    · exact hk d hd
    · rw [List.mem_singleton.mp hd, ht]
  refine .inr ⟨ls, l, hlast, h, ?_⟩
  have hjoin : t ++ ['\n'] = (ls ++ [l ++ ['\n']]).flatten := by
    rw [← hflat]
    simp
  rw [hjoin]
  refine splitlines_flatten ⟨fun m hm => ?_, ?_⟩
  · rcases List.mem_append.mp hm with hm | hm
    · exact hlines.1 m (List.mem_append_left _ hm)
    · rw [List.mem_singleton.mp hm, isLine_concat]
      exact hlast
  · have hp := hlines.2
    rw [List.pairwise_append] at hp ⊢
    exact ⟨hp.1, List.pairwise_singleton _ _, fun a ha b _ => hp.2.2 a ha l (by simp)⟩

end Text
