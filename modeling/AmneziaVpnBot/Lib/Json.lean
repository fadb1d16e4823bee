import AmneziaVpnBot.Lib.Text
import Mathlib.Data.List.Basic

/-! JSON as Python's `json.loads` reads it from the bytes of a line: strict UTF-8, tokens, and a
machine with a stack of open containers. A string is a list of code points, since an escape may
name a lone surrogate. The reader gives up on a text that is nested too deeply, and does so
exactly when the nesting of the text is above the limit. -/

/-- A string by its code points. -/
abbrev Str := List ℕ

/-! ### UTF-8 -/

namespace Utf8

/-- Reads on in a character that `owed` more bytes belong to; `code` is the number so far and
`least` the smallest that needs so many bytes. -/
def decodeFrom : (owed least code : ℕ) → List UInt8 → Option Text
  | 0, _, _, [] => some []
  | _ + 1, _, _, [] => none
  | 0, _, _, b :: bytes =>
    let n := b.toNat
    if n < 0x80 then (decodeFrom 0 0 0 bytes).map (Char.ofNat n :: ·)
    else if n < 0xc0 then none
    else if n < 0xe0 then decodeFrom 1 0x80 (n - 0xc0) bytes
    else if n < 0xf0 then decodeFrom 2 0x800 (n - 0xe0) bytes
    else if n < 0xf8 then decodeFrom 3 0x10000 (n - 0xf0) bytes
    else none
  | owed + 1, least, code, b :: bytes =>
    let code := code * 64 + b.toNat % 64
    if b.toNat / 64 ≠ 2 then none
    else if owed ≠ 0 then decodeFrom owed least code bytes
    -- neither an overlong form nor a surrogate nor beyond the last code point
    else if least ≤ code ∧ code.isValidChar then (decodeFrom 0 0 0 bytes).map (Char.ofNat code :: ·)
    else none

/-- `data.decode("utf-8")` -/
def decode (bytes : List UInt8) : Option Text := decodeFrom 0 0 0 bytes

def encodeChar (n : ℕ) : List UInt8 :=
  if n < 0x80 then [.ofNat n]
  else if n < 0x800 then [.ofNat (0xc0 + n / 64), .ofNat (0x80 + n % 64)]
  else if n < 0x10000 then [.ofNat (0xe0 + n / 4096), .ofNat (0x80 + n / 64 % 64), .ofNat (0x80 + n % 64)]
  else [.ofNat (0xf0 + n / 262144), .ofNat (0x80 + n / 4096 % 64), .ofNat (0x80 + n / 64 % 64), .ofNat (0x80 + n % 64)]

/-- `s.encode("utf-8")`, which surrogates have no part in. -/
def encode (s : Str) : Option (List UInt8) :=
  if s.all fun n => decide n.isValidChar then some (s.flatMap encodeChar) else none

example : (encode [0x7f, 0x80, 0x7ff, 0x800, 0xffff, 0x10000, 0x10ffff]).bind decode =
    some ([0x7f, 0x80, 0x7ff, 0x800, 0xffff, 0x10000, 0x10ffff].map Char.ofNat) := by decide

example : decode [0xc0, 0x80] = none ∧ decode [0xed, 0xa0, 0x80] = none ∧ decode [0xf4, 0x90, 0x80, 0x80] = none := by
  decide

section Tail

variable {owed least code k : ℕ}

/-- One of the bytes of a character, not the last. -/
theorem decodeFrom_tail (hk : k < 64) (bytes : List UInt8) :
    decodeFrom (owed + 2) least code (.ofNat (0x80 + k) :: bytes) =
      decodeFrom (owed + 1) least (code * 64 + k) bytes := by
  rw [decodeFrom, UInt8.toNat_ofNat_of_lt' (show _ < 256 by omega), if_neg (by omega), if_pos (Nat.succ_ne_zero owed),
    show (0x80 + k) % 64 = k by omega]

theorem decodeFrom_last (hk : k < 64) (hleast : least ≤ code * 64 + k) (hvalid : (code * 64 + k).isValidChar)
    (bytes : List UInt8) :
    decodeFrom 1 least code (.ofNat (0x80 + k) :: bytes) =
      (decodeFrom 0 0 0 bytes).map (Char.ofNat (code * 64 + k) :: ·) := by
  rw [decodeFrom, UInt8.toNat_ofNat_of_lt' (show _ < 256 by omega), if_neg (by omega), if_neg (not_not.mpr rfl),
    show (0x80 + k) % 64 = k by omega, if_pos ⟨hleast, hvalid⟩]

end Tail

theorem decodeFrom_encodeChar {n : ℕ} (h : n.isValidChar) (bytes : List UInt8) :
    decodeFrom 0 0 0 (encodeChar n ++ bytes) = (decodeFrom 0 0 0 bytes).map (Char.ofNat n :: ·) := by
  have hn : n < 0x110000 := h.elim (fun h => by omega) (·.2)
  unfold encodeChar
  split
  · rw [List.singleton_append, decodeFrom, UInt8.toNat_ofNat_of_lt' (show _ < 256 by omega), if_pos ‹_›]
  split
  · have hcode : n / 64 * 64 + n % 64 = n := by omega
    rw [List.cons_append, List.singleton_append, decodeFrom, UInt8.toNat_ofNat_of_lt' (show _ < 256 by omega),
      if_neg (by omega), if_neg (by omega), if_pos (by omega), Nat.add_sub_cancel_left,
      decodeFrom_last (by omega) (by omega) (hcode.symm ▸ h), hcode]
  split
  · have hcode : (n / 4096 * 64 + n / 64 % 64) * 64 + n % 64 = n := by omega
    rw [List.cons_append, List.cons_append, List.singleton_append, decodeFrom,
      UInt8.toNat_ofNat_of_lt' (show _ < 256 by omega), if_neg (by omega), if_neg (by omega), if_neg (by omega),
      if_pos (by omega), Nat.add_sub_cancel_left, decodeFrom_tail (by omega), decodeFrom_last (by omega) (by omega)
        (hcode.symm ▸ h), hcode]
  · have hcode : ((n / 262144 * 64 + n / 4096 % 64) * 64 + n / 64 % 64) * 64 + n % 64 = n := by omega
    rw [List.cons_append, List.cons_append, List.cons_append, List.singleton_append, decodeFrom,
      UInt8.toNat_ofNat_of_lt' (show _ < 256 by omega), if_neg (by omega), if_neg (by omega), if_neg (by omega),
      if_neg (by omega), if_pos (by omega), Nat.add_sub_cancel_left, decodeFrom_tail (by omega),
      decodeFrom_tail (by omega), decodeFrom_last (by omega) (by omega) (hcode.symm ▸ h), hcode]

theorem isValidChar_of_encode {s : Str} {bytes : List UInt8} (h : encode s = some bytes) :
    ∀ n ∈ s, n.isValidChar := by
  unfold encode at h
  split at h
  · rename_i hall
    exact fun n hn => of_decide_eq_true (List.all_eq_true.mp hall n hn)
  · cases h

/-- What was encoded decodes to the same characters. -/
theorem decode_of_encode {s : Str} {bytes : List UInt8} (h : encode s = some bytes) :
    decode bytes = some (s.map Char.ofNat) := by
  unfold encode at h
  split at h
  · rename_i hall
    obtain rfl := Option.some.inj h
    clear h
    induction s with
    | nil => rfl
    | cons n s ih =>
      rw [List.all_cons, Bool.and_eq_true, decide_eq_true_eq] at hall
      rw [List.flatMap_cons, decode, decodeFrom_encodeChar hall.1, show decodeFrom 0 0 0 _ = _ from ih hall.2]
      rfl
  · cases h

/-- Every byte takes part in some character. -/
theorem decodeFrom_ne_nil (bytes : List UInt8) (owed least code : ℕ) :
    decodeFrom (owed + 1) least code bytes ≠ some [] := by
  induction bytes generalizing owed least code with
  | nil => rw [decodeFrom]; exact Option.some_ne_none _ |>.symm
  | cons b bytes ih =>
    rw [decodeFrom]
    split
    · exact Option.some_ne_none _ |>.symm
    split
    · obtain ⟨owed, rfl⟩ := Nat.exists_eq_succ_of_ne_zero ‹_›
      exact ih _ _ _
    split
    · simp
    · exact Option.some_ne_none _ |>.symm

theorem eq_nil_of_decode {bytes : List UInt8} (h : decode bytes = some []) : bytes = [] := by
  cases bytes with
  | nil => rfl
  | cons b bytes =>
    exfalso
    revert h
    rw [decode, decodeFrom]
    split
    · simp
    split
    · exact Option.some_ne_none _ |>.symm
    split
    · exact decodeFrom_ne_nil _ _ _ _
    split
    · exact decodeFrom_ne_nil _ _ _ _
    split
    · exact decodeFrom_ne_nil _ _ _ _
    · exact Option.some_ne_none _ |>.symm

section Inverse

variable {owed least code : ℕ} {bytes : List UInt8} {t : Text}

theorem decodeFrom_tail_inv (h : decodeFrom (owed + 2) least code bytes = some t) :
    ∃ k < 64, ∃ rest, bytes = .ofNat (0x80 + k) :: rest ∧
    decodeFrom (owed + 1) least (code * 64 + k) rest = some t := by
  cases bytes with
  | nil => cases h
  | cons b rest =>
    rw [decodeFrom] at h
    split at h
    · cases h
    rw [if_pos (Nat.succ_ne_zero owed)] at h
    refine ⟨b.toNat % 64, Nat.mod_lt _ (by decide), rest, ?_, h⟩
    rw [show 0x80 + b.toNat % 64 = b.toNat by omega, UInt8.ofNat_toNat]

theorem decodeFrom_last_inv (h : decodeFrom 1 least code bytes = some t) :
    ∃ k < 64, ∃ rest u, bytes = .ofNat (0x80 + k) :: rest ∧ least ≤ code * 64 + k ∧ (code * 64 + k).isValidChar ∧
      decode rest = some u ∧ t = .ofNat (code * 64 + k) :: u := by
  cases bytes with
  | nil => cases h
  | cons b rest =>
    rw [decodeFrom] at h
    split at h
    · cases h
    rw [if_neg (not_not.mpr rfl)] at h
    split at h
    · rename_i hcode
      obtain ⟨u, hu, rfl⟩ := Option.map_eq_some_iff.mp h
      refine ⟨b.toNat % 64, Nat.mod_lt _ (by decide), rest, u, ?_, hcode.1, hcode.2, hu, rfl⟩
      rw [show 0x80 + b.toNat % 64 = b.toNat by omega, UInt8.ofNat_toNat]
    · cases h

/-- The first character, if there are any bytes. -/
theorem decode_inv {b : UInt8} (h : decode (b :: bytes) = some t) :
    ∃ n rest u, n.isValidChar ∧ b :: bytes = encodeChar n ++ rest ∧ decode rest = some u ∧ t = .ofNat n :: u := by
  rw [decode, decodeFrom] at h
  have hb := b.toNat_lt
  have hlead {n : ℕ} (hn : n = b.toNat) : UInt8.ofNat n = b := by rw [hn, UInt8.ofNat_toNat]
  split at h
  · obtain ⟨u, hu, rfl⟩ := Option.map_eq_some_iff.mp h
    refine ⟨b.toNat, bytes, u, .inl (by omega), ?_, hu, rfl⟩
    rw [encodeChar, if_pos ‹_›, UInt8.ofNat_toNat, List.singleton_append]
  split at h
  · cases h
  split at h
  · obtain ⟨k, hk, rest, u, rfl, hleast, hvalid, hu, rfl⟩ := decodeFrom_last_inv h
    generalize hn : (b.toNat - 0xc0) * 64 + k = n at hleast hvalid
    refine ⟨n, rest, u, hvalid, ?_, hu, rfl⟩
    rw [encodeChar, if_neg (by omega), if_pos (by omega), hlead (n := 0xc0 + n / 64) (by omega),
      show n % 64 = k by omega]
    rfl
  split at h
  · obtain ⟨j, hj, rest₁, rfl, h₁⟩ := decodeFrom_tail_inv h
    obtain ⟨k, hk, rest, u, rfl, hleast, hvalid, hu, rfl⟩ := decodeFrom_last_inv h₁
    generalize hn : ((b.toNat - 0xe0) * 64 + j) * 64 + k = n at hleast hvalid
    refine ⟨n, rest, u, hvalid, ?_, hu, rfl⟩
    rw [encodeChar, if_neg (by omega), if_neg (by omega), if_pos (by omega), hlead (n := 0xe0 + n / 4096) (by omega),
      show n / 64 % 64 = j by omega, show n % 64 = k by omega]
    rfl
  split at h
  · obtain ⟨i, hi, rest₁, rfl, h₁⟩ := decodeFrom_tail_inv h
    obtain ⟨j, hj, rest₂, rfl, h₂⟩ := decodeFrom_tail_inv h₁
    obtain ⟨k, hk, rest, u, rfl, hleast, hvalid, hu, rfl⟩ := decodeFrom_last_inv h₂
    generalize hn : (((b.toNat - 0xf0) * 64 + i) * 64 + j) * 64 + k = n at hleast hvalid
    refine ⟨n, rest, u, hvalid, ?_, hu, rfl⟩
    rw [encodeChar, if_neg (by omega), if_neg (by omega), if_neg (by omega), hlead (n := 0xf0 + n / 262144) (by omega),
      show n / 4096 % 64 = i by omega, show n / 64 % 64 = j by omega, show n % 64 = k by omega]
    rfl
  · cases h

end Inverse

theorem toNat_ofNat_char {n : ℕ} (h : n.isValidChar) : (Char.ofNat n).toNat = n := by
  rw [Char.ofNat, dif_pos h]
  rfl

/-- The characters of some bytes encode to these bytes. -/
theorem encode_of_decode {bytes : List UInt8} {t : Text} (h : decode bytes = some t) :
    encode (t.map Char.toNat) = some bytes := by
  have hall : (t.map Char.toNat).all (fun n => decide n.isValidChar) = true := by
    simp only [List.all_map, List.all_eq_true, Function.comp_apply, decide_eq_true_eq]
    exact fun c _ => c.valid
  rw [encode, if_pos hall]
  clear hall
  refine congrArg some ?_
  induction hlen : bytes.length using Nat.strong_induction_on generalizing bytes t with
  | h len ih =>
    cases bytes with
    | nil => rw [← Option.some.inj h]; rfl
    | cons b bytes =>
      obtain ⟨n, rest, u, hn, hbytes, hu, rfl⟩ := decode_inv h
      have hshort : rest.length < len := by
        have hpos : 0 < (encodeChar n).length := by
          unfold encodeChar
          split
          · exact Nat.one_pos
          split
          · exact Nat.two_pos
          split <;> exact Nat.succ_pos _
        rw [← hlen, hbytes, List.length_append]
        omega
      rw [hbytes, List.map_cons, List.flatMap_cons, toNat_ofNat_char hn, ih _ hshort hu rfl]

end Utf8

/-! ### Values -/

inductive Json
  | null
  | bool (b : Bool)
  /-- As it is written, `NaN` and the infinities among them. -/
  | number (literal : Text)
  | string (s : Str)
  | array (items : List Json)
  /-- A dict: no key is there twice. -/
  | object (members : List (Str × Json))

namespace Json

/-- `d[key] = value` -/
def setKey (key : Str) (value : Json) (members : List (Str × Json)) : List (Str × Json) :=
  members.filter (·.1 ≠ key) ++ [(key, value)]

/-! ### Tokens -/

inductive Token
  | openArray
  | closeArray
  | openObject
  | closeObject
  | colon
  | comma
  | string (s : Str)
  | scalar (value : Json)
  /-- No token starts here. -/
  | bad

def isBlank (c : Char) : Bool := c == ' ' || c == '\t' || c == '\n' || c == '\r'

def hexDigit (c : Char) : Option ℕ :=
  if c.isDigit then some (c.toNat - '0'.toNat)
  else if 'a' ≤ c ∧ c ≤ 'f' then some (c.toNat - 'a'.toNat + 10)
  else if 'A' ≤ c ∧ c ≤ 'F' then some (c.toNat - 'A'.toNat + 10)
  else none

/-- What a letter after a backslash stands for. -/
def escapes : List (Char × ℕ) :=
  [('"', '"'.toNat), ('\\', '\\'.toNat), ('/', '/'.toNat), ('b', 8), ('f', 12), ('n', 10), ('r', 13), ('t', 9)]

/-- The string that ends at the next quote and how many characters it takes with the quote. -/
def scanString : Text → Option (Str × ℕ)
  | '"' :: _ => some ([], 1)
  | '\\' :: 'u' :: a :: b :: c :: d :: rest =>
    ([a, b, c, d].mapM hexDigit).bind fun ds =>
      (scanString rest).map fun (s, k) => (ds.foldl (fun n d => 16 * n + d) 0 :: s, k + 6)
  | '\\' :: c :: rest =>
    (escapes.lookup c).bind fun n => (scanString rest).map fun (s, k) => (n :: s, k + 2)
  | c :: rest =>
    if c.toNat < 0x20 ∨ c = '\\' then none else (scanString rest).map fun (s, k) => (c.toNat :: s, k + 1)
  | [] => none

/-- An escaped surrogate pair is one character. -/
def joinSurrogates : Str → Str
  | high :: low :: rest =>
    if 0xd800 ≤ high ∧ high < 0xdc00 ∧ 0xdc00 ≤ low ∧ low < 0xe000 then
      (0x10000 + (high - 0xd800) * 0x400 + (low - 0xdc00)) :: joinSurrogates rest
    else high :: joinSurrogates (low :: rest)
  | s => s

/-- `\.[0-9]+`, or nothing. -/
def scanFraction : Text → Text
  | '.' :: rest => if rest.takeWhile Char.isDigit = [] then [] else '.' :: rest.takeWhile Char.isDigit
  | _ => []

def isSign (c : Char) : Bool := c == '+' || c == '-'

/-- `[eE][-+]?[0-9]+`, or nothing. -/
def scanExponent : Text → Text
  | e :: rest =>
    let sign := rest.takeWhile isSign
    let digits := (rest.drop sign.length).takeWhile Char.isDigit
    if (e = 'e' ∨ e = 'E') ∧ sign.length ≤ 1 ∧ digits ≠ [] then e :: sign ++ digits else []
  | [] => []

/-- The digits that `int` takes of a number. -/
def maxDigits : ℕ := 4300

/-- `(-?(?:0|[1-9][0-9]*))(\.[0-9]+)?([eE][-+]?[0-9]+)?` -/
def scanNumber (t : Text) : Option Text :=
  let sign := if t.head? = some '-' then ['-'] else []
  let body := t.drop sign.length
  let int := if body.head? = some '0' then ['0'] else body.takeWhile Char.isDigit
  let rest := body.drop int.length
  let fraction := scanFraction rest
  let exponent := scanExponent (rest.drop fraction.length)
  if int = [] ∨ (fraction ++ exponent = [] ∧ maxDigits < int.length) then none
  else some (sign ++ int ++ fraction ++ exponent)

def words : List (Text × Json) :=
  [("null".toList, .null), ("true".toList, .bool true), ("false".toList, .bool false)] ++
    ["NaN".toList, "Infinity".toList, "-Infinity".toList].map fun t => (t, .number t)

/-- The token a text starts with and its length. -/
def nextToken : Text → Token × ℕ
  | '[' :: _ => (.openArray, 1)
  | ']' :: _ => (.closeArray, 1)
  | '{' :: _ => (.openObject, 1)
  | '}' :: _ => (.closeObject, 1)
  | ':' :: _ => (.colon, 1)
  | ',' :: _ => (.comma, 1)
  | '"' :: rest => match scanString rest with
    | some (s, k) => (.string (joinSurrogates s), k + 1)
    | none => (.bad, 1)
  | t => match words.find? (·.1.isPrefixOf t) with
    | some (word, v) => (.scalar v, word.length)
    | none => match scanNumber t with
      | some literal => (.scalar (.number literal), literal.length)
      | none => (.bad, 1)

/-- The tokens of a text, of which `skip` characters belong to a token already taken. -/
def tokens : (skip : ℕ) → Text → List Token
  | _, [] => []
  | skip + 1, _ :: cs => tokens skip cs
  | 0, c :: cs =>
    if isBlank c then tokens 0 cs
    else (nextToken (c :: cs)).1 :: tokens ((nextToken (c :: cs)).2 - 1) cs

/-! ### The machine -/

/-- A container whose next member is being read. -/
inductive Frame
  | array (items : List Json)
  | object (members : List (Str × Json)) (key : Str)

inductive Machine
  /-- A value is due. -/
  | value (stack : List Frame)
  /-- The first item of an array, or its end. -/
  | first (stack : List Frame)
  /-- A key, or the end of the object where that may come. -/
  | key (members : List (Str × Json)) (stack : List Frame) (mayClose : Bool)
  | colon (members : List (Str × Json)) (key : Str) (stack : List Frame)
  /-- A value has been read. -/
  | after (v : Json) (stack : List Frame)

inductive LoadError
  /-- `ValueError` -/
  | value
  /-- `RecursionError` -/
  | recursion
  deriving DecidableEq

/-- May a container be opened inside `stack`? -/
def fits (limit : Option ℕ) (stack : List Frame) : Bool := limit.all fun l => decide (stack.length < l)

def start (limit : Option ℕ) (stack : List Frame) : Token → Except LoadError Machine
  | .string s => .ok (.after (.string s) stack)
  | .scalar v => .ok (.after v stack)
  | .openArray => if fits limit stack then .ok (.first stack) else .error .recursion
  | .openObject => if fits limit stack then .ok (.key [] stack true) else .error .recursion
  | _ => .error .value

def step (limit : Option ℕ) : Machine → Token → Except LoadError Machine
  | .value stack, t => start limit stack t
  | .first stack, .closeArray => .ok (.after (.array []) stack)
  | .first stack, t => start limit (.array [] :: stack) t
  | .key members stack true, .closeObject => .ok (.after (.object members) stack)
  | .key members stack _, .string s => .ok (.colon members s stack)
  | .colon members key stack, .colon => .ok (.value (.object members key :: stack))
  | .after v (.array items :: stack), .comma => .ok (.value (.array (items ++ [v]) :: stack))
  | .after v (.array items :: stack), .closeArray => .ok (.after (.array (items ++ [v])) stack)
  | .after v (.object members key :: stack), .comma => .ok (.key (setKey key v members) stack false)
  | .after v (.object members key :: stack), .closeObject => .ok (.after (.object (setKey key v members)) stack)
  | _, _ => .error .value

def run (limit : Option ℕ) : Machine → List Token → Except LoadError Json
  | .after v [], [] => .ok v
  | _, [] => .error .value
  | m, t :: ts => match step limit m t with
    | .ok m => run limit m ts
    | .error e => .error e

/-- `json.loads`, with the nesting at which it gives up. -/
def loads (limit : Option ℕ) (t : Text) : Except LoadError Json := run limit (.value []) (tokens 0 t)

/-- The value a text stands for, however deep it is. -/
def parse (t : Text) : Option Json := (loads none t).toOption

/-! ### Nesting -/

/-- How many containers are open. -/
def Machine.depth : Machine → ℕ
  | .value stack | .after _ stack => stack.length
  | .first stack | .key _ stack _ | .colon _ _ stack => stack.length + 1

/-- The most containers that are open at once before the text ends or goes wrong. -/
def deepest : Machine → List Token → ℕ
  | m, [] => m.depth
  | m, t :: ts => match step none m t with
    | .ok m' => max m.depth (deepest m' ts)
    | .error _ => m.depth

def nesting (t : Text) : ℕ := deepest (.value []) (tokens 0 t)

theorem depth_le_deepest (m : Machine) (ts : List Token) : m.depth ≤ deepest m ts := by
  cases ts with
  | nil => exact le_rfl
  | cons t ts =>
    rw [deepest]
    split
    · exact le_max_left _ _
    · exact le_rfl

/-- A start is the one without a limit, unless a container opens at the limit. -/
theorem start_cases (l : ℕ) (stack : List Frame) (t : Token) :
    (start (some l) stack t = .error .recursion ∧ l ≤ stack.length ∧
        ∃ m, start none stack t = .ok m ∧ stack.length < m.depth) ∨
      start (some l) stack t = start none stack t ∧
        ∀ m, start none stack t = .ok m → m.depth ≤ max l stack.length := by
  have hopen : ∀ m : Machine, m.depth = stack.length + 1 →
      ((if fits (some l) stack then .ok m else .error .recursion : Except LoadError Machine) = .error .recursion ∧
          l ≤ stack.length ∧ ∃ m', (.ok m : Except LoadError Machine) = .ok m' ∧ stack.length < m'.depth) ∨
        (if fits (some l) stack then .ok m else .error .recursion : Except LoadError Machine) = .ok m ∧
          ∀ m', (.ok m : Except LoadError Machine) = .ok m' → m'.depth ≤ max l stack.length := by
    intro m hm
    by_cases h : stack.length < l
    · right
      refine ⟨if_pos (by simpa [fits] using h), ?_⟩
      rintro m' ⟨⟩
      omega
    · left
      exact ⟨if_neg (by simpa [fits] using h), by omega, m, rfl, by omega⟩
  cases t with
  | openArray => exact hopen (.first stack) rfl
  | openObject => exact hopen (.key [] stack true) rfl
  | string s => exact .inr ⟨rfl, by rintro m ⟨⟩; exact le_max_right _ _⟩
  | scalar v => exact .inr ⟨rfl, by rintro m ⟨⟩; exact le_max_right _ _⟩
  | closeArray | closeObject | colon | comma | bad => exact .inr ⟨rfl, by rintro m ⟨⟩⟩

theorem step_first {limit : Option ℕ} {stack : List Frame} {t : Token} (h : t ≠ .closeArray) :
    step limit (.first stack) t = start limit (.array [] :: stack) t := by
  cases t <;> first | rfl | contradiction

theorem step_cases (l : ℕ) (m : Machine) (t : Token) :
    (step (some l) m t = .error .recursion ∧ l ≤ m.depth ∧ ∃ m', step none m t = .ok m' ∧ m.depth < m'.depth) ∨
      step (some l) m t = step none m t ∧ ∀ m', step none m t = .ok m' → m'.depth ≤ max l m.depth := by
  have hplain : ∀ r : Except LoadError Machine, step (some l) m t = r → step none m t = r →
      (∀ m', r = .ok m' → m'.depth ≤ m.depth) →
      step (some l) m t = step none m t ∧ ∀ m', step none m t = .ok m' → m'.depth ≤ max l m.depth := by
    intro r h h' hr
    rw [h, h']
    exact ⟨rfl, fun m' hm => (hr m' hm).trans (le_max_right _ _)⟩
  cases m with
  | value stack => exact start_cases l stack t
  | first stack =>
    by_cases ht : t = .closeArray
    · subst ht
      exact .inr (hplain _ rfl rfl (by rintro m ⟨⟩; exact Nat.le_succ _))
    · rw [step_first ht, step_first ht]
      exact start_cases l (.array [] :: stack) t
  | key members stack mayClose =>
    cases t with
    | string s =>
      cases mayClose <;> exact .inr (hplain _ rfl rfl (by rintro m ⟨⟩; exact le_rfl))
    | closeObject =>
      cases mayClose
      · exact .inr (hplain _ rfl rfl (by rintro m ⟨⟩))
      · exact .inr (hplain _ rfl rfl (by rintro m ⟨⟩; exact Nat.le_succ _))
    | openArray | openObject | closeArray | colon | comma | scalar | bad =>
      cases mayClose <;> exact .inr (hplain _ rfl rfl (by rintro m ⟨⟩))
  | colon members key stack =>
    cases t with
    | colon => exact .inr (hplain _ rfl rfl (by rintro m ⟨⟩; exact le_rfl))
    | openArray | openObject | closeArray | closeObject | string | comma | scalar | bad =>
      exact .inr (hplain _ rfl rfl (by rintro m ⟨⟩))
  | after v stack =>
    rcases stack with - | ⟨items | ⟨members, key⟩, stack⟩
    · exact .inr (hplain (.error .value) rfl rfl (by rintro m ⟨⟩))
    · cases t with
      | comma => exact .inr (hplain _ rfl rfl (by rintro m ⟨⟩; exact le_rfl))
      | closeArray => exact .inr (hplain _ rfl rfl (by rintro m ⟨⟩; exact Nat.le_succ _))
      | openArray | openObject | closeObject | colon | string | scalar | bad =>
        exact .inr (hplain _ rfl rfl (by rintro m ⟨⟩))
    · cases t with
      | comma => exact .inr (hplain _ rfl rfl (by rintro m ⟨⟩; exact le_rfl))
      | closeObject => exact .inr (hplain _ rfl rfl (by rintro m ⟨⟩; exact Nat.le_succ _))
      | openArray | openObject | closeArray | colon | string | scalar | bad =>
        exact .inr (hplain _ rfl rfl (by rintro m ⟨⟩))

theorem run_cons (limit : Option ℕ) (m : Machine) (t : Token) (ts : List Token) :
    run limit m (t :: ts) = (step limit m t).bind fun m => run limit m ts := by
  rw [run]
  cases step limit m t <;> rfl

/-- The limit only matters to a run that goes deeper. -/
theorem run_limit {l : ℕ} {m : Machine} (hm : m.depth ≤ l) (ts : List Token) :
    run (some l) m ts = if l < deepest m ts then .error .recursion else run none m ts := by
  induction ts generalizing m with
  | nil =>
    rw [deepest, if_neg (by omega)]
    cases m with
    | after v stack => cases stack <;> rfl
    | value | first | key | colon => rfl
  | cons t ts ih =>
    rw [run_cons, run_cons, deepest]
    rcases step_cases l m t with ⟨h, hl, m', hm', hdepth⟩ | ⟨h, hdepth⟩
    · have hdeep := depth_le_deepest m' ts
      have hlt : l < max m.depth (deepest m' ts) := by omega
      rw [h, hm']
      exact (if_pos hlt).symm
    · rw [h]
      cases hm' : step none m t with
      | error e =>
        simp only [if_neg (show ¬ l < m.depth by omega)]
        rfl
      | ok m' =>
        have hm'l : m'.depth ≤ l := (hdepth m' hm').trans (max_le le_rfl hm)
        have hlt : l < max m.depth (deepest m' ts) ↔ l < deepest m' ts := by omega
        simp only [Except.bind, ih hm'l, hlt]

theorem start_none (stack : List Frame) (t : Token) : start none stack t ≠ .error .recursion := by
  cases t <;> simp [start, fits]

theorem step_none (m : Machine) (t : Token) : step none m t ≠ .error .recursion := by
  unfold step
  split <;> first | exact start_none _ _ | simp

theorem run_none (m : Machine) (ts : List Token) : run none m ts ≠ .error .recursion := by
  induction ts generalizing m with
  | nil =>
    cases m with
    | after v stack => cases stack <;> simp [run]
    | value | first | key | colon => simp [run]
  | cons t ts ih =>
    rw [run_cons]
    cases h : step none m t with
    | error e => exact fun he => step_none m t (h.trans (congrArg _ (Except.error.inj he)))
    | ok m' => exact ih m'

/-- Reading a text gives its value or fails, and gives up exactly where the text is nested too deeply. -/
theorem loads_eq (l : ℕ) (t : Text) :
    loads (some l) t = if l < nesting t then .error .recursion else (parse t).elim (.error .value) .ok := by
  rw [loads, run_limit (Nat.zero_le l), ← nesting]
  refine if_congr Iff.rfl rfl ?_
  rw [parse, ← loads]
  cases h : loads none t with
  | ok v => rfl
  | error e =>
    cases e with
    | value => rfl
    | recursion => exact absurd h (run_none _ _)

end Json
