import AmneziaVpnBot.Lib.Text
import Mathlib.Algebra.Group.Nat.Defs

/-! Addresses as Python's `ipaddress` reads and prints them, and the choice of a free one.
An address is printed in a form that reads back, and the first free host is the smallest
one not in use. -/

namespace AmneziaVpnBot.Vpnctl

open Text

inductive Ip
  | v4 (n : ℕ)
  | v6 (n : ℕ)
  deriving DecidableEq

def Ip.value : Ip → ℕ
  | .v4 n | .v6 n => n

def Ip.width : Ip → ℕ
  | .v4 _ => 32
  | .v6 _ => 128

/-- Another address of the same version. -/
def Ip.with (ip : Ip) (n : ℕ) : Ip :=
  match ip with
  | .v4 _ => .v4 n
  | .v6 _ => .v6 n

/-- An address with the length of its network's prefix. -/
structure Interface where
  ip : Ip
  prefixLen : ℕ
  deriving DecidableEq

/-! ### Reading -/

def isDigit (c : Char) : Bool := '0' ≤ c && c ≤ '9'

def hexValue (c : Char) : Option ℕ :=
  if isDigit c then some (c.toNat - '0'.toNat)
  else if 'a' ≤ c ∧ c ≤ 'f' then some (c.toNat - 'a'.toNat + 10)
  else if 'A' ≤ c ∧ c ≤ 'F' then some (c.toNat - 'A'.toNat + 10)
  else none

/-- A decimal number of digits only, at most `bound`. -/
def parseDecimal (bound : ℕ) (t : Text) : Option ℕ :=
  if t ≠ [] ∧ t.all isDigit ∧ Nat.ofDigitChars 10 t 0 ≤ bound then some (Nat.ofDigitChars 10 t 0) else none

/-- At most three digits, and no zero in front of others. -/
def parseOctet (t : Text) : Option ℕ :=
  if 3 < t.length ∨ (t.head? = some '0' ∧ t.length ≠ 1) then none else parseDecimal 255 t

def parseV4 (t : Text) : Option ℕ :=
  match (t.splitOn '.').mapM parseOctet with
  | some [a, b, c, d] => some (((a * 256 + b) * 256 + c) * 256 + d)
  | _ => none

def parseHextet (t : Text) : Option ℕ :=
  if t ≠ [] ∧ t.length ≤ 4 then (t.mapM hexValue).map fun ds => ds.foldl (fun n d => 16 * n + d) 0 else none

def joinHextets (parts : List ℕ) : ℕ := parts.foldl (fun n p => 65536 * n + p) 0

/-- Eight groups, where one run of at least one zero group may be left out; an empty part at
either end goes with the gap next to it. -/
def parseHextets (parts : List Text) : Option ℕ :=
  match parts with
  | [] => none
  | first :: rest =>
    if 9 < parts.length then none else
    match (rest.dropLast).findIdxs (·.isEmpty) with
    | [] => if parts.length = 8 then (parts.mapM parseHextet).map joinHextets else none
    | [i] =>
      let hi := parts.take (i + 1)
      let lo := parts.drop (i + 2)
      let hi := if first.isEmpty then hi.tail else hi
      let lo := if parts.getLast? = some [] then lo.dropLast else lo
      if (first.isEmpty ∧ hi ≠ []) ∨ (parts.getLast? = some [] ∧ lo ≠ []) ∨ 7 < hi.length + lo.length then none
      else do
        let hi ← hi.mapM parseHextet
        let lo ← lo.mapM parseHextet
        some (joinHextets (hi ++ List.replicate (8 - hi.length - lo.length) 0 ++ lo))
    | _ => none

/-- A dotted quad may stand for the last two groups; a zone after `%` does not count. -/
def parseV6 (t : Text) : Option ℕ :=
  match t.splitOn '%' with
  | [t] => parseGroups t
  | [t, zone] => if zone.isEmpty then none else parseGroups t
  | _ => none
where
  parseGroups (t : Text) : Option ℕ :=
    let parts := t.splitOn ':'
    if parts.length < 3 then none else
    match parts.getLast? with
    | some last =>
      if '.' ∈ last then (parseV4 last).bind fun n =>
        parseHextets (parts.dropLast ++ [Nat.toDigits 16 (n / 65536), Nat.toDigits 16 (n % 65536)])
      else parseHextets parts
    | none => none

/-- The prefix length of a netmask. -/
def maskLength (n : ℕ) : Option ℕ := (List.range 33).find? fun p => n + 2 ^ (32 - p) = 2 ^ 32

/-- A prefix length, a netmask or a hostmask. -/
def parseV4Mask (t : Text) : Option ℕ :=
  parseDecimal 32 t <|> (parseV4 t).bind fun n => maskLength n <|> maskLength (2 ^ 32 - 1 - n)

def parseInterface (t : Text) : Option Interface :=
  match t.splitOn '/' with
  | [a] => (parseV4 a).map (⟨.v4 ·, 32⟩) <|> (parseV6 a).map (⟨.v6 ·, 128⟩)
  | [a, m] =>
    ((parseV4 a).bind fun n => (parseV4Mask m).map (⟨.v4 n, ·⟩)) <|>
      (parseV6 a).bind fun n => (parseDecimal 128 m).map (⟨.v6 n, ·⟩)
  | _ => none

/-! ### Printing -/

def v4Text (n : ℕ) : Text :=
  List.intercalate ['.']
    (([n / 16777216, n / 65536 % 256, n / 256 % 256, n % 256] : List ℕ).map (Nat.toDigits 10))

/-- The groups of an address from the highest. -/
def hextets (n : ℕ) : List ℕ := (List.range 8).map fun i => n / 65536 ^ (7 - i) % 65536

def zerosAt (parts : List ℕ) (i : ℕ) : ℕ := ((parts.drop i).takeWhile (· = 0)).length

/-- Where the first of the longest runs of zeros starts. -/
def longestZeros (parts : List ℕ) : ℕ :=
  (List.range parts.length).foldl (fun best i => if zerosAt parts best < zerosAt parts i then i else best) 0

/-- Lower-case groups, the longest run of two or more zeros left out. -/
def v6Text (n : ℕ) : Text :=
  let parts := hextets n
  let start := longestZeros parts
  let stop := start + zerosAt parts start
  let texts := parts.map (Nat.toDigits 16)
  List.intercalate [':'] <|
    if stop < start + 2 then texts
    else (if start = 0 then [[]] else []) ++ texts.take start ++ [[]] ++ texts.drop stop ++
      (if stop = 8 then [[]] else [])

def Ip.text : Ip → Text
  | .v4 n => v4Text n
  | .v6 n => v6Text n

/-! ### Networks -/

/-- The address of the interface's network. -/
def Interface.network (i : Interface) : ℕ :=
  i.ip.value / 2 ^ (i.ip.width - i.prefixLen) * 2 ^ (i.ip.width - i.prefixLen)

def Interface.networkText (i : Interface) : Text :=
  (i.ip.with i.network).text ++ '/' :: Nat.toDigits 10 i.prefixLen

/-- The first of `network.hosts()` and how many there are: not the network's own address and,
for IPv4, not the broadcast address, but all of a network of one or two addresses. -/
def Interface.hosts (i : Interface) : ℕ × ℕ :=
  let size := 2 ^ (i.ip.width - i.prefixLen)
  if size ≤ 2 then (i.network, size)
  else match i.ip with
    | .v4 _ => (i.network + 1, size - 2)
    | .v6 _ => (i.network + 1, size - 1)

/-- The first of `count` numbers from `n` on that is not in use. -/
def firstFree (used : ℕ → Bool) (n : ℕ) : ℕ → Option ℕ
  | 0 => none
  | count + 1 => if used n then firstFree used (n + 1) count else some n

/-- `a` is a host address of the interface's network. -/
def Interface.IsHost (i : Interface) (a : ℕ) : Prop := i.hosts.1 ≤ a ∧ a < i.hosts.1 + i.hosts.2

theorem firstFree_eq_some {used : ℕ → Bool} {n count a : ℕ} :
    firstFree used n count = some a ↔
      (n ≤ a ∧ a < n + count) ∧ used a = false ∧ ∀ b, n ≤ b → b < a → used b = true := by
  induction count generalizing n with
  | zero => simp only [firstFree, reduceCtorEq, false_iff]; omega
  | succ count ih =>
    rw [firstFree]
    split
    · rename_i hn
      rw [ih]
      constructor
      · rintro ⟨ha, hfree, hmin⟩
        refine ⟨by omega, hfree, fun b hb hlt => ?_⟩
        rcases Nat.eq_or_lt_of_le hb with rfl | hb
        · exact hn
        · exact hmin b hb hlt
      · rintro ⟨ha, hfree, hmin⟩
        have hne : n ≠ a := by
          rintro rfl
          simp [hn] at hfree
        exact ⟨by omega, hfree, fun b hb => hmin b (by omega)⟩
    · rename_i hn
      simp only [Bool.not_eq_true] at hn
      rw [Option.some.injEq]
      constructor
      · rintro rfl
        exact ⟨by omega, hn, fun b hb hlt => by omega⟩
      · rintro ⟨ha, hfree, hmin⟩
        by_contra hne
        have := hmin n le_rfl (by omega)
        simp [hn] at this

theorem firstFree_eq_none {used : ℕ → Bool} {n count : ℕ} :
    firstFree used n count = none ↔ ∀ a, n ≤ a → a < n + count → used a = true := by
  induction count generalizing n with
  | zero => simp only [firstFree, true_iff]; omega
  | succ count ih =>
    rw [firstFree]
    split
    · rename_i hn
      rw [ih]
      constructor
      · intro h a ha hlt
        rcases Nat.eq_or_lt_of_le ha with rfl | ha
        · exact hn
        · exact h a ha (by omega)
      · exact fun h a ha hlt => h a (by omega) (by omega)
    · rename_i hn
      simp only [reduceCtorEq, false_iff]
      exact fun h => hn (h n le_rfl (by omega))

/-! ### What is printed -/

theorem exists_digitChar_of_mem {b n : ℕ} (hb : 1 < b) {c : Char} (h : c ∈ Nat.toDigits b n) :
    ∃ d < b, c = Nat.digitChar d := by
  induction n using Nat.strong_induction_on with
  | _ n ih =>
    rw [Nat.toDigits_eq_if hb] at h
    split at h
    · exact ⟨n, by assumption, List.mem_singleton.mp h⟩
    · rcases List.mem_append.mp h with h | h
      · exact ih (n / b) (Nat.div_lt_self (by omega) hb) h
      · exact ⟨n % b, Nat.mod_lt _ (by omega), List.mem_singleton.mp h⟩

/-- The characters of a printed address: no white space, comma or slash among them. -/
def isAddressChar (c : Char) : Bool := isDigit c || ('a' ≤ c && c ≤ 'f') || c == '.' || c == ':'

theorem isAddressChar_of_mem_toDigits {b n : ℕ} (hb : 1 < b) (hle : b ≤ 16) {c : Char}
    (h : c ∈ Nat.toDigits b n) : isAddressChar c = true := by
  obtain ⟨d, hd, rfl⟩ := exists_digitChar_of_mem hb h
  have hd : d < 16 := hd.trans_le hle
  have hall : ∀ d < 16, isAddressChar (Nat.digitChar d) = true := by decide
  exact hall d hd

theorem isAddressChar_of_mem_text {ip : Ip} {c : Char} (h : c ∈ ip.text) : isAddressChar c = true := by
  cases ip with
  | v4 n =>
    rcases mem_intercalate h with h | ⟨l, hl, hc⟩
    · simp [isAddressChar, List.mem_singleton.mp h]
    · obtain ⟨d, -, rfl⟩ := List.mem_map.mp hl
      exact isAddressChar_of_mem_toDigits (by omega) (by omega) hc
  | v6 n =>
    have hparts : ∀ l ∈ (hextets n).map (Nat.toDigits 16), ∀ c ∈ l, isAddressChar c = true := by
      intro l hl c hc
      obtain ⟨d, -, rfl⟩ := List.mem_map.mp hl
      exact isAddressChar_of_mem_toDigits (by omega) (by omega) hc
    rcases mem_intercalate h with h | ⟨l, hl, hc⟩
    · simp [isAddressChar, List.mem_singleton.mp h]
    · refine hparts l ?_ c hc
      have hne : l ≠ [] := List.ne_nil_of_mem hc
      have hgap : ∀ (p : Prop) [Decidable p], l ∉ if p then [([] : Text)] else [] := by
        intro p _
        split <;> simp [hne]
      split at hl
      · exact hl
      · simp only [List.mem_append, List.mem_singleton, hgap, hne, false_or, or_false] at hl
        exact hl.elim List.mem_of_mem_take List.mem_of_mem_drop

theorem parseOctet_toDigits : ∀ n < 256, parseOctet (Nat.toDigits 10 n) = some n := by decide +kernel

theorem parseV4_v4Text {n : ℕ} (h : n < 2 ^ 32) : parseV4 (v4Text n) = some n := by
  have hdot : ∀ l ∈ ([n / 16777216, n / 65536 % 256, n / 256 % 256, n % 256] : List ℕ).map (Nat.toDigits 10),
      '.' ∉ l := by
    intro l hl hc
    obtain ⟨d, -, rfl⟩ := List.mem_map.mp hl
    have := Nat.isDigit_of_mem_toDigits (by omega) (by omega) hc
    simp at this
  have hjoin : ((n / 16777216 * 256 + n / 65536 % 256) * 256 + n / 256 % 256) * 256 + n % 256 = n := by omega
  rw [parseV4, v4Text, List.splitOn_intercalate _ hdot (by simp)]
  have h3 := parseOctet_toDigits (n / 16777216) (by omega)
  have h2 := parseOctet_toDigits (n / 65536 % 256) (by omega)
  have h1 := parseOctet_toDigits (n / 256 % 256) (by omega)
  have h0 := parseOctet_toDigits (n % 256) (by omega)
  simp [h3, h2, h1, h0, hjoin]

/-- An IPv4 address printed with `/32` reads back. -/
theorem parseInterface_v4Text {n : ℕ} (h : n < 2 ^ 32) :
    parseInterface (v4Text n ++ "/32".toList) = some ⟨.v4 n, 32⟩ := by
  have hslash : '/' ∉ v4Text n := fun hc => by
    have := isAddressChar_of_mem_text (show _ ∈ (Ip.v4 n).text from hc)
    revert this
    decide
  have hmask : parseV4Mask "32".toList = some 32 := by decide
  have hsplit : (v4Text n ++ "/32".toList).splitOn '/' = [v4Text n, "32".toList] := by
    rw [show "/32".toList = '/' :: "32".toList from rfl, List.splitOn_append_cons_self_of_not_mem hslash,
      List.splitOn_eq_singleton (by decide)]
  rw [parseInterface, hsplit]
  simp only [parseV4_v4Text h, hmask]
  rfl

example : (parseInterface "10.66.66.1/24".toList).map (fun i => (i.networkText, i.hosts)) =
    some ("10.66.66.0/24".toList, 10 * 16777216 + 66 * 65536 + 66 * 256 + 1, 254) := by decide +kernel

example : ((parseInterface "2001:DB8::1/64".toList).map fun i => i.ip.text) = some "2001:db8::1".toList := by
  decide +kernel

end AmneziaVpnBot.Vpnctl
