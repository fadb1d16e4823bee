import Mathlib.Data.List.DropRight

/-! Base64 as Python's `binascii` writes and reads it. The reader takes letters in groups of four and
stops at padding that completes a group; what else it finds it skips, unless it is strict. Padding that
was cut off can be put back from the length alone. -/
namespace Base64

def pad : UInt8 := 61

/-- The letter for six bits. -/
def digit (n : ℕ) : UInt8 :=
  if n < 26 then .ofNat (65 + n)
  else if n < 52 then .ofNat (71 + n)
  else if n < 62 then .ofNat (n - 4)
  else if n = 62 then 43 else 47

def value (b : UInt8) : Option ℕ :=
  let n := b.toNat
  if 65 ≤ n ∧ n ≤ 90 then some (n - 65)
  else if 97 ≤ n ∧ n ≤ 122 then some (n - 71)
  else if 48 ≤ n ∧ n ≤ 57 then some (n + 4)
  else if n = 43 then some 62
  else if n = 47 then some 63 else none

/-- `base64.b64encode` -/
def encode : List UInt8 → List UInt8
  | [] => []
  | [a] => [digit (a.toNat / 4), digit (a.toNat % 4 * 16), pad, pad]
  | [a, b] => [digit (a.toNat / 4), digit (a.toNat % 4 * 16 + b.toNat / 16), digit (b.toNat % 16 * 4), pad]
  | a :: b :: c :: rest =>
    digit (a.toNat / 4) :: digit (a.toNat % 4 * 16 + b.toNat / 16) ::
      digit (b.toNat % 16 * 4 + c.toNat / 64) :: digit (c.toNat % 64) :: encode rest

/-- Reads on after `quad` letters of a group, which leave the bits `left` for the next byte; there were
`pads` paddings since the last letter that count, and `padded` says if there was any at all. -/
def decodeFrom (strict : Bool) : (quad left pads : ℕ) → (padded : Bool) → List UInt8 → Option (List UInt8)
  | quad, _, _, _, [] => if quad = 0 then some [] else none
  | quad, left, pads, padded, b :: bytes =>
    if b = pad then
      if quad < 2 then decodeFrom strict quad left pads true bytes
      else if quad + (pads + 1) < 4 then decodeFrom strict quad left (pads + 1) true bytes
      else if strict && !bytes.isEmpty then none
      else some []
    else match value b with
      | none => if strict then none else decodeFrom strict quad left pads padded bytes
      | some v =>
        if strict && padded then none
        else match quad with
          | 0 => decodeFrom strict 1 v 0 padded bytes
          | 1 => (decodeFrom strict 2 (v % 16) 0 padded bytes).map (.ofNat (left * 4 + v / 16) :: ·)
          | 2 => (decodeFrom strict 3 (v % 4) 0 padded bytes).map (.ofNat (left * 16 + v / 4) :: ·)
          | _ => (decodeFrom strict 0 0 0 padded bytes).map (.ofNat (left * 64 + v) :: ·)

/-- `binascii.a2b_base64(data, strict_mode=strict)` -/
def decode (strict : Bool) (data : List UInt8) : Option (List UInt8) :=
  if strict && data.head? == some pad then none else decodeFrom strict 0 0 0 false data

-- "AB=C=" and "AAAA=" read leniently and strictly
example : decode false [65, 66, 61, 67, 61] = some [0, 16] ∧ decode true [65, 66, 61, 67, 61] = none ∧
    decode true [65, 65, 65, 65, 61] = some [0, 0, 0] := by decide

/-! ### Letters -/

theorem value_digit : ∀ n < 64, value (digit n) = some n := by decide

theorem digit_ne_pad : ∀ n < 64, digit n ≠ pad := by decide

theorem mem_encode {x : List UInt8} {b : UInt8} (hb : b ∈ encode x) : b = pad ∨ ∃ n < 64, b = digit n := by
  induction x using encode.induct with
  | case1 => exact absurd hb List.not_mem_nil
  | case2 x =>
    have hx := x.toNat_lt
    simp only [encode, List.mem_cons, List.not_mem_nil, or_false, or_self] at hb
    obtain rfl | rfl | rfl := hb
    · exact .inr ⟨_, by omega, rfl⟩
    · exact .inr ⟨_, by omega, rfl⟩
    · exact .inl rfl
  | case3 x y =>
    have hx := x.toNat_lt
    have hy := y.toNat_lt
    simp only [encode, List.mem_cons, List.not_mem_nil, or_false] at hb
    obtain rfl | rfl | rfl | rfl := hb
    · exact .inr ⟨_, by omega, rfl⟩
    · exact .inr ⟨_, by omega, rfl⟩
    · exact .inr ⟨_, by omega, rfl⟩
    · exact .inl rfl
  | case4 x y z rest ih =>
    have hx := x.toNat_lt
    have hy := y.toNat_lt
    have hz := z.toNat_lt
    simp only [encode, List.mem_cons] at hb
    obtain rfl | rfl | rfl | rfl | hb := hb
    · exact .inr ⟨_, by omega, rfl⟩
    · exact .inr ⟨_, by omega, rfl⟩
    · exact .inr ⟨_, by omega, rfl⟩
    · exact .inr ⟨_, by omega, rfl⟩
    · exact ih hb

theorem encode_ne_nil {x : List UInt8} (h : x ≠ []) : encode x ≠ [] := by
  induction x using encode.induct with
  | case1 => exact absurd rfl h
  | _ => exact List.cons_ne_nil _ _

/-! ### Reading back -/

section Letters

variable {strict : Bool} {left pads n : ℕ} {a : UInt8} {bytes : List UInt8}

theorem decodeFrom_first (hn : n < 64) :
    decodeFrom strict 0 left pads false (digit n :: bytes) = decodeFrom strict 1 n 0 false bytes := by
  rw [decodeFrom, if_neg (digit_ne_pad n hn), value_digit n hn, Bool.and_false]
  rfl

theorem decodeFrom_second (hn : n < 64) (h : left * 4 + n / 16 = a.toNat) :
    decodeFrom strict 1 left pads false (digit n :: bytes) =
      (decodeFrom strict 2 (n % 16) 0 false bytes).map (a :: ·) := by
  rw [decodeFrom, if_neg (digit_ne_pad n hn), value_digit n hn, Bool.and_false, ← UInt8.ofNat_toNat (x := a), ← h]
  rfl

theorem decodeFrom_third (hn : n < 64) (h : left * 16 + n / 4 = a.toNat) :
    decodeFrom strict 2 left pads false (digit n :: bytes) =
      (decodeFrom strict 3 (n % 4) 0 false bytes).map (a :: ·) := by
  rw [decodeFrom, if_neg (digit_ne_pad n hn), value_digit n hn, Bool.and_false, ← UInt8.ofNat_toNat (x := a), ← h]
  rfl

theorem decodeFrom_fourth (hn : n < 64) (h : left * 64 + n = a.toNat) :
    decodeFrom strict 3 left pads false (digit n :: bytes) = (decodeFrom strict 0 0 0 false bytes).map (a :: ·) := by
  rw [decodeFrom, if_neg (digit_ne_pad n hn), value_digit n hn, Bool.and_false, ← UInt8.ofNat_toNat (x := a), ← h]
  rfl

end Letters

theorem decodeFrom_encode (strict : Bool) (x : List UInt8) : decodeFrom strict 0 0 0 false (encode x) = some x := by
  induction x using encode.induct with
  | case1 => rfl
  | case2 a =>
    have ha := a.toNat_lt
    have hpads (left : ℕ) : decodeFrom strict 2 left 0 false [pad, pad] = some [] := by cases strict <;> rfl
    rw [encode, decodeFrom_first (by omega), decodeFrom_second (a := a) (by omega) (by omega), hpads]
    rfl
  | case3 a b =>
    have ha := a.toNat_lt
    have hb := b.toNat_lt
    have hpads (left : ℕ) : decodeFrom strict 3 left 0 false [pad] = some [] := by cases strict <;> rfl
    rw [encode, decodeFrom_first (by omega), decodeFrom_second (a := a) (by omega) (by omega),
      decodeFrom_third (a := b) (by omega) (by omega), hpads]
    rfl
  | case4 a b c rest ih =>
    have ha := a.toNat_lt
    have hb := b.toNat_lt
    have hc := c.toNat_lt
    rw [encode, decodeFrom_first (by omega), decodeFrom_second (a := a) (by omega) (by omega),
      decodeFrom_third (a := b) (by omega) (by omega), decodeFrom_fourth (a := c) (by omega) (by omega), ih]
    rfl

theorem decode_encode (strict : Bool) (x : List UInt8) : decode strict (encode x) = some x := by
  have hhead : (encode x).head? ≠ some pad := by
    induction x using encode.induct with
    | case1 => decide
    | case2 a => simpa [encode] using digit_ne_pad _ (by have := a.toNat_lt; omega)
    | case3 a b => simpa [encode] using digit_ne_pad _ (by have := a.toNat_lt; omega)
    | case4 a b c rest => simpa [encode] using digit_ne_pad _ (by have := a.toNat_lt; omega)
  rw [decode, beq_false_of_ne hhead, Bool.and_false]
  exact decodeFrom_encode strict x

/-! ### Padding -/

/-- `t.rstrip(b"=")` -/
def unpadded (t : List UInt8) : List UInt8 := t.rdropWhile (· == pad)

/-- The padding a text of this length lacks. -/
def missing (length : ℕ) : ℕ := (4 - length % 4) % 4

theorem missing_add_four (length : ℕ) : missing (length + 1 + 1 + 1 + 1) = missing length := by
  unfold missing
  omega

/-- The letters of a text in base64 are followed by as much padding as their number asks for. -/
theorem encode_eq (x : List UInt8) :
    ∃ letters, encode x = letters ++ List.replicate (missing letters.length) pad ∧ ∀ b ∈ letters, b ≠ pad := by
  induction x using encode.induct with
  | case1 => exact ⟨[], rfl, by simp⟩
  | case2 a =>
    have ha := a.toNat_lt
    refine ⟨[_, _], rfl, ?_⟩
    simp [digit_ne_pad (a.toNat / 4) (by omega), digit_ne_pad (a.toNat % 4 * 16) (by omega)]
  | case3 a b =>
    have ha := a.toNat_lt
    have hb := b.toNat_lt
    refine ⟨[_, _, _], rfl, ?_⟩
    simp [digit_ne_pad (a.toNat / 4) (by omega), digit_ne_pad (a.toNat % 4 * 16 + b.toNat / 16) (by omega),
      digit_ne_pad (b.toNat % 16 * 4) (by omega)]
  | case4 a b c rest ih =>
    obtain ⟨letters, heq, hne⟩ := ih
    have ha := a.toNat_lt
    have hb := b.toNat_lt
    have hc := c.toNat_lt
    refine ⟨digit (a.toNat / 4) :: digit (a.toNat % 4 * 16 + b.toNat / 16) ::
      digit (b.toNat % 16 * 4 + c.toNat / 64) :: digit (c.toNat % 64) :: letters, ?_, ?_⟩
    · rw [encode, heq]
      simp only [List.length_cons, missing_add_four, List.cons_append]
    · simpa [digit_ne_pad (a.toNat / 4) (by omega), digit_ne_pad (a.toNat % 4 * 16 + b.toNat / 16) (by omega),
        digit_ne_pad (b.toNat % 16 * 4 + c.toNat / 64) (by omega), digit_ne_pad (c.toNat % 64) (by omega)] using hne

theorem unpadded_append {letters : List UInt8} (h : ∀ b ∈ letters, b ≠ pad) (n : ℕ) :
    unpadded (letters ++ List.replicate n pad) = letters := by
  induction n with
  | zero =>
    rw [List.replicate_zero, List.append_nil, unpadded, List.rdropWhile_eq_self_iff]
    intro hl
    simpa using h _ (List.getLast_mem hl)
  | succ n ih =>
    rw [List.replicate_succ', ← List.append_assoc, unpadded, List.rdropWhile_concat_pos _ _ _ (by simp)]
    exact ih

/-! ### Safe in URLs -/

/-- `-` and `_` stand for `+` and `/`. -/
def toUrl (b : UInt8) : UInt8 := if b = 43 then 45 else if b = 47 then 95 else b

def ofUrl (b : UInt8) : UInt8 := if b = 45 then 43 else if b = 95 then 47 else b

/-- `base64.urlsafe_b64encode` -/
def urlsafeEncode (x : List UInt8) : List UInt8 := (encode x).map toUrl

/-- `base64.urlsafe_b64decode`, which takes the letters `+` and `/` as well. -/
def urlsafeDecode (t : List UInt8) : Option (List UInt8) := decode false (t.map ofUrl)

theorem ofUrl_toUrl : ∀ n < 64, ofUrl (toUrl (digit n)) = digit n := by decide

theorem toUrl_ne_pad {b : UInt8} (h : b ≠ pad) : toUrl b ≠ pad := by
  unfold toUrl
  split
  · decide
  · split
    · decide
    · exact h

theorem mem_urlsafeEncode {x : List UInt8} {b : UInt8} (hb : b ∈ urlsafeEncode x) :
    b = pad ∨ ∃ n < 64, b = toUrl (digit n) := by
  obtain ⟨c, hc, rfl⟩ := List.mem_map.mp hb
  obtain rfl | ⟨n, hn, rfl⟩ := mem_encode hc
  · exact .inl rfl
  · exact .inr ⟨n, hn, rfl⟩

theorem urlsafeDecode_encode (x : List UInt8) : urlsafeDecode (urlsafeEncode x) = some x := by
  have hback : (urlsafeEncode x).map ofUrl = encode x := by
    rw [urlsafeEncode, List.map_map]
    refine (List.map_congr_left fun b hb => ?_).trans (List.map_id _)
    obtain rfl | ⟨n, hn, rfl⟩ := mem_encode hb
    · rfl
    · exact ofUrl_toUrl n hn
  rw [urlsafeDecode, hback, decode_encode]

/-- Padding that was stripped comes back. -/
theorem unpadded_urlsafeEncode (x : List UInt8) :
    unpadded (urlsafeEncode x) ++ List.replicate (missing (unpadded (urlsafeEncode x)).length) pad =
      urlsafeEncode x := by
  obtain ⟨letters, heq, hne⟩ := encode_eq x
  have hurl : urlsafeEncode x = letters.map toUrl ++ List.replicate (missing (letters.map toUrl).length) pad := by
    rw [urlsafeEncode, heq, List.map_append, List.map_replicate, List.length_map]
    rfl
  have hletters : unpadded (urlsafeEncode x) = letters.map toUrl := by
    rw [hurl]
    apply unpadded_append
    intro b hb
    obtain ⟨c, hc, rfl⟩ := List.mem_map.mp hb
    exact toUrl_ne_pad (hne c hc)
  rw [hletters, ← hurl]

theorem unpadded_ne_nil {x : List UInt8} (h : x ≠ []) : unpadded (urlsafeEncode x) ≠ [] := by
  intro hnil
  have heq := unpadded_urlsafeEncode x
  rw [hnil] at heq
  exact encode_ne_nil h (List.map_eq_nil_iff.mp heq.symm)

end Base64
