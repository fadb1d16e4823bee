import AmneziaVpnBot.Lib.Base64
import AmneziaVpnBot.Lib.Json
import Mathlib.Algebra.Group.Nat.Defs

/-! The codec of `vpn://` keys: the text of a config is deflated, preceded by its size and written in
base64 without padding. The bot has one copy of it and the command on the VPN hosts another, and a key
made by either is read by both. -/

namespace AmneziaVpnBot

/-- What the codec relies on; `decompress` has no value where it raises. -/
structure Zlib where
  compress : (data : List UInt8) → (level : ℕ) → List UInt8
  decompress : List UInt8 → Option (List UInt8)

/-- `zlib.decompress` undoes `zlib.compress`, at every level there is. -/
def Zlib.Undoes (z : Zlib) : Prop := ∀ data, ∀ level ≤ 9, z.decompress (z.compress data level) = some data

namespace Codec

open Base64 (urlsafeEncode urlsafeDecode unpadded missing)

/-- What the codec can raise. -/
inductive Raised
  | unicode
  | binascii
  | zlib
  | struct
  deriving DecidableEq

def orRaise {α : Type} (raised : Raised) (value : Option α) : Except Raised α := value.elim (.error raised) .ok

/-! ### Texts and bytes -/

/-- `str.isspace` of one code point; no surrogate is white space. -/
def isSpace (c : ℕ) : Bool := Text.isSpace (.ofNat c)

/-- `s.strip()` -/
def strip (s : Str) : Str := (s.dropWhile isSpace).rdropWhile isSpace

def scheme : Str := "vpn://".toList.map Char.toNat

def withoutScheme (raw : Str) : Str := if scheme.isPrefixOf raw then raw.drop 6 else raw

/-- `raw += "=" * padding` -/
def padded (raw : Str) : Str := raw ++ List.replicate (missing raw.length) 61

def utf8Encode (s : Str) : Except Raised (List UInt8) := orRaise .unicode (Utf8.encode s)

def utf8Decode (data : List UInt8) : Except Raised Str :=
  orRaise .unicode ((Utf8.decode data).map fun t => t.map Char.toNat)

/-- `s.encode("ascii")` -/
def asciiEncode (s : Str) : Except Raised (List UInt8) :=
  if ∀ c ∈ s, c < 128 then .ok (s.map UInt8.ofNat) else .error .unicode

/-- `base64.urlsafe_b64encode(data).rstrip(b"=").decode("ascii")` -/
def b64 (data : List UInt8) : Str := (unpadded (urlsafeEncode data)).map UInt8.toNat

/-- `base64.urlsafe_b64decode(raw.encode("ascii"))` -/
def b64decode (raw : Str) : Except Raised (List UInt8) := do
  let ascii ← asciiEncode raw
  orRaise .binascii (urlsafeDecode ascii)

/-- `struct.pack(">I", n)` -/
def pack (n : ℕ) : Except Raised (List UInt8) :=
  if n < 2 ^ 32 then .ok [.ofNat (n / 2 ^ 24), .ofNat (n / 2 ^ 16), .ofNat (n / 2 ^ 8), .ofNat n]
  else .error .struct

/-- `struct.unpack(">I", data)[0]` -/
def unpack : List UInt8 → Except Raised ℕ
  | [a, b, c, d] => .ok (a.toNat * 2 ^ 24 + b.toNat * 2 ^ 16 + c.toNat * 2 ^ 8 + d.toNat)
  | _ => .error .struct

end Codec

open Codec

/-! ### The bot's copy -/

namespace AmneziaCodec

def qCompress (z : Zlib) (data : List UInt8) (level : ℕ) : Except Raised (List UInt8) := do
  let compressed := z.compress data level
  let header ← pack data.length
  return header ++ compressed

def qUncompress (z : Zlib) (data : List UInt8) : Except Raised (List UInt8) := do
  if data.length < 4 then return []
  let uncompressedSize ← unpack (data.take 4)
  match z.decompress (data.drop 4) with
  | some uncompressed => return if uncompressed.length = uncompressedSize then uncompressed else []
  | none => return []

def encodeVpnUrl (z : Zlib) (configText : Str) : Except Raised Str := do
  let data ← utf8Encode configText
  let compressed ← qCompress z data 8
  return scheme ++ b64 compressed

def decodeVpnUrl (z : Zlib) (vpnUrl : Str) : Except Raised (Option Str) := do
  let raw := padded (withoutScheme (strip vpnUrl))
  try
    let data ← b64decode raw
    let uncompressed ← qUncompress z data
    if uncompressed = [] then pure none
    else some <$> utf8Decode uncompressed
  catch _ => pure none

end AmneziaCodec

/-! ### The copy on the VPN hosts -/

namespace Vpnctl

def encodeVpnUrl (z : Zlib) (configText : Str) : Except Raised Str := do
  let data ← utf8Encode configText
  let header ← pack data.length
  let compressed := header ++ z.compress data 8
  return scheme ++ b64 compressed

def decodeVpnUrl (z : Zlib) (vpnUrl : Str) : Except Raised Str := do
  let raw := padded (withoutScheme (strip vpnUrl))
  try
    let data ← b64decode raw
    let out ← orRaise .zlib (z.decompress (data.drop 4))
    let size ← unpack (data.take 4)
    if out.length = size then utf8Decode out else pure []
  catch _ => pure []

end Vpnctl

/-! ### Lemmas -/

namespace Codec

theorem unpack_pack {n : ℕ} {header : List UInt8} (h : pack n = .ok header) :
    header.length = 4 ∧ unpack header = .ok n := by
  unfold pack at h
  split at h
  · obtain rfl := Except.ok.inj h
    refine ⟨rfl, congrArg Except.ok ?_⟩
    simp only [UInt8.toNat_ofNat']
    omega
  · cases h

theorem unpack_short {data : List UInt8} (h : data.length ≠ 4) : unpack data = .error .struct := by
  unfold unpack
  split
  · exact absurd rfl h
  · rfl

theorem exists_unpack {data : List UInt8} (h : data.length = 4) : ∃ n, unpack data = .ok n := by
  obtain ⟨a, b, c, d, rfl⟩ := List.length_eq_four.mp h
  exact ⟨_, rfl⟩

/-- Text that begins and ends otherwise is what is left when the white space around it goes. -/
theorem strip_append {before s after : Str} (hbefore : ∀ c ∈ before, isSpace c = true)
    (hafter : ∀ c ∈ after, isSpace c = true) (hs : s ≠ []) (hinner : ∀ c ∈ s, isSpace c = false) :
    strip (before ++ s ++ after) = s := by
  obtain ⟨c, s, rfl⟩ := List.exists_cons_of_ne_nil hs
  have hleft : (before ++ (c :: s) ++ after).dropWhile isSpace = c :: s ++ after := by
    rw [List.append_assoc, List.dropWhile_append, List.dropWhile_eq_nil_iff.mpr hbefore, List.cons_append,
      List.dropWhile_cons_of_neg (by simp [hinner c List.mem_cons_self])]
    rfl
  rw [strip, hleft]
  clear hleft
  induction after using List.reverseRecOn with
  | nil =>
    rw [List.append_nil, List.rdropWhile_eq_self_iff]
    intro hl
    simp [hinner _ (List.getLast_mem hl)]
  | append_singleton after d ih =>
    rw [← List.append_assoc, List.rdropWhile_concat_pos _ _ _ (hafter d (by simp))]
    exact ih fun c hc => hafter c (List.mem_append_left _ hc)

/-- What base64 writes is ASCII without white space or a colon. -/
theorem mem_b64 {data : List UInt8} {c : ℕ} (hc : c ∈ b64 data) : isSpace c = false ∧ c ≠ 58 := by
  obtain ⟨b, hb, rfl⟩ := List.mem_map.mp hc
  have hletters : ∀ n < 64, isSpace (Base64.toUrl (Base64.digit n)).toNat = false ∧
      (Base64.toUrl (Base64.digit n)).toNat ≠ 58 := by decide
  obtain rfl | ⟨n, hn, rfl⟩ := Base64.mem_urlsafeEncode ((List.rdropWhile_prefix _ _).mem hb)
  · decide
  · exact hletters n hn

theorem withoutScheme_append (raw : Str) : withoutScheme (scheme ++ raw) = raw := by
  rw [withoutScheme, if_pos (List.isPrefixOf_iff_prefix.mpr (List.prefix_append _ _))]
  rfl

theorem withoutScheme_b64 (data : List UInt8) : withoutScheme (b64 data) = b64 data := by
  rw [withoutScheme, if_neg]
  intro hprefix
  have hcolon : 58 ∈ scheme := by decide
  exact (mem_b64 ((List.isPrefixOf_iff_prefix.mp hprefix).mem hcolon)).2 rfl

theorem b64decode_padded (data : List UInt8) : b64decode (padded (b64 data)) = .ok data := by
  have hpadded : padded (b64 data) = (Base64.urlsafeEncode data).map UInt8.toNat := by
    rw [padded, b64, List.length_map, ← Base64.unpadded_urlsafeEncode data, List.map_append, List.map_replicate,
      Base64.unpadded_urlsafeEncode]
    rfl
  have hascii : asciiEncode (padded (b64 data)) = .ok (Base64.urlsafeEncode data) := by
    rw [hpadded, asciiEncode, if_pos, List.map_map]
    · exact congrArg Except.ok ((List.map_congr_left fun b _ => UInt8.ofNat_toNat).trans (List.map_id _))
    · have hletters : ∀ n < 64, (Base64.toUrl (Base64.digit n)).toNat < 128 := by decide
      intro c hc
      obtain ⟨b, hb, rfl⟩ := List.mem_map.mp hc
      obtain rfl | ⟨n, hn, rfl⟩ := Base64.mem_urlsafeEncode hb
      · decide
      · exact hletters n hn
  rw [b64decode, hascii]
  exact congrArg (orRaise .binascii) (Base64.urlsafeDecode_encode data)

/-- A key, whatever white space surrounds it and with its scheme or without, is read as what was written. -/
theorem b64decode_key {before key after : Str} {data : List UInt8} (hdata : data ≠ [])
    (hbefore : ∀ c ∈ before, isSpace c = true) (hafter : ∀ c ∈ after, isSpace c = true)
    (hkey : key = scheme ++ b64 data ∨ key = b64 data) :
    b64decode (padded (withoutScheme (strip (before ++ key ++ after)))) = .ok data := by
  have hne : b64 data ≠ [] := fun h => Base64.unpadded_ne_nil hdata (List.map_eq_nil_iff.mp h)
  have hscheme : ∀ c ∈ scheme, isSpace c = false := by decide
  obtain rfl | rfl := hkey
  · rw [strip_append hbefore hafter (by simp [hne]) ?_, withoutScheme_append, b64decode_padded]
    intro c hc
    exact (List.mem_append.mp hc).elim (hscheme c) fun hc => (mem_b64 hc).1
  · rw [strip_append hbefore hafter hne fun c hc => (mem_b64 hc).1, withoutScheme_b64, b64decode_padded]

theorem utf8Decode_encode {text : Str} {data : List UInt8} (h : Utf8.encode text = some data) :
    utf8Decode data = .ok text := by
  rw [utf8Decode, Utf8.decode_of_encode h, Option.map_some, List.map_map]
  refine congrArg Except.ok ((List.map_congr_left fun n hn => ?_).trans (List.map_id _))
  exact Utf8.toNat_ofNat_char (Utf8.isValidChar_of_encode h n hn)

theorem utf8Decode_ne_nil {data : List UInt8} {text : Str} (h : utf8Decode data = .ok text) (hne : data ≠ []) :
    text ≠ [] := by
  rintro rfl
  unfold utf8Decode at h
  cases hdecode : Utf8.decode data with
  | none =>
    rw [hdecode] at h
    cases h
  | some t =>
    rw [hdecode] at h
    rw [List.map_eq_nil_iff.mp (Except.ok.inj h)] at hdecode
    exact hne (Utf8.eq_nil_of_decode hdecode)

end Codec

namespace AmneziaCodec

/-- Both copies write the same key. -/
theorem encodeVpnUrl_eq (z : Zlib) (configText : Str) :
    Vpnctl.encodeVpnUrl z configText = encodeVpnUrl z configText := by
  unfold Vpnctl.encodeVpnUrl encodeVpnUrl qCompress
  cases utf8Encode configText with
  | error raised => rfl
  | ok data =>
    simp only [bind, Except.bind]
    cases pack data.length <;> rfl

/-- A text that is UTF-8 has a key if its size fits the header. -/
theorem encodeVpnUrl_of_encode (z : Zlib) {text : Str} {data : List UInt8} (h : Utf8.encode text = some data) :
    encodeVpnUrl z text = (pack data.length).map fun header => scheme ++ b64 (header ++ z.compress data 8) := by
  unfold encodeVpnUrl utf8Encode
  rw [h]
  unfold qCompress
  simp only [orRaise, Option.elim_some, bind, Except.bind]
  cases pack data.length <;> rfl

theorem exists_encodeVpnUrl (z : Zlib) {text : Str} {data : List UInt8} (h : Utf8.encode text = some data)
    (hsize : data.length < 2 ^ 32) : ∃ url, encodeVpnUrl z text = .ok url := by
  rw [encodeVpnUrl_of_encode z h, pack, if_pos hsize]
  exact ⟨_, rfl⟩

theorem length_lt_of_encodeVpnUrl {z : Zlib} {text url : Str} {data : List UInt8} (h : Utf8.encode text = some data)
    (hurl : encodeVpnUrl z text = .ok url) : data.length < 2 ^ 32 := by
  rw [encodeVpnUrl_of_encode z h, pack] at hurl
  split at hurl
  · assumption
  · cases hurl

section Decode

variable {z : Zlib} {vpnUrl text : Str} {header deflated data : List UInt8}

theorem decodeVpnUrl_of_b64decode
    (hraw : b64decode (padded (withoutScheme (strip vpnUrl))) = .ok (header ++ deflated))
    (hheader : pack data.length = .ok header) (hz : z.decompress deflated = some data) (hne : data ≠ [])
    (htext : utf8Decode data = .ok text) :
    decodeVpnUrl z vpnUrl = .ok (some text) ∧ Vpnctl.decodeVpnUrl z vpnUrl = .ok text := by
  obtain ⟨hlength, hunpack⟩ := unpack_pack hheader
  have htake : (header ++ deflated).take 4 = header := List.take_left' hlength
  have hdrop : (header ++ deflated).drop 4 = deflated := List.drop_left' hlength
  have hfour : ¬ (header ++ deflated).length < 4 := by
    rw [List.length_append]
    omega
  constructor
  · have hq : qUncompress z (header ++ deflated) = .ok data := by
      unfold qUncompress
      simp only [htake, hdrop, hunpack, hz, if_neg hfour]
      exact congrArg Except.ok (if_pos rfl)
    unfold decodeVpnUrl
    simp only [hraw, bind, Except.bind, hq, if_neg hne, htext]
    rfl
  · unfold Vpnctl.decodeVpnUrl
    simp only [hraw, bind, Except.bind, htake, hdrop, hz, hunpack, orRaise, Option.elim_some, if_pos, htext]
    rfl

end Decode

/-- The decoders agree on every string, and neither raises. -/
theorem decodeVpnUrl_eq (z : Zlib) (vpnUrl : Str) :
    ∃ text, Vpnctl.decodeVpnUrl z vpnUrl = .ok text ∧
      decodeVpnUrl z vpnUrl = .ok (if text = [] then none else some text) := by
  unfold Vpnctl.decodeVpnUrl decodeVpnUrl
  dsimp only
  cases b64decode (padded (withoutScheme (strip vpnUrl))) with
  | error raised => exact ⟨[], rfl, rfl⟩
  | ok data =>
    simp only [bind, Except.bind]
    by_cases hlength : data.length < 4
    · -- too short for a size: one does not look further, the other cannot read it
      have hq : qUncompress z data = .ok [] := by rw [qUncompress, if_pos hlength]; rfl
      have hunpack : unpack (data.take 4) = .error .struct := unpack_short (by rw [List.length_take]; omega)
      rw [hq, hunpack]
      refine ⟨[], ?_, rfl⟩
      cases z.decompress (data.drop 4) <;> rfl
    · have hfour : (data.take 4).length = 4 := by
        rw [List.length_take]
        omega
      obtain ⟨size, hsize⟩ := exists_unpack hfour
      simp only [qUncompress, if_neg hlength, hsize]
      cases z.decompress (data.drop 4) with
      | none => exact ⟨[], rfl, rfl⟩
      | some out =>
        simp only [orRaise, Option.elim_some, bind, Except.bind, pure, Except.pure]
        by_cases hout : out.length = size
        · simp only [if_pos hout]
          by_cases hnil : out = []
          · rw [hnil]
            exact ⟨[], rfl, rfl⟩
          · cases htext : utf8Decode out with
            | error raised =>
              rw [if_neg hnil]
              exact ⟨[], rfl, rfl⟩
            | ok text =>
              refine ⟨text, rfl, ?_⟩
              rw [if_neg hnil, if_neg (utf8Decode_ne_nil htext hnil)]
              rfl
        · simp only [if_neg hout]
          exact ⟨[], rfl, rfl⟩

/-- A key decodes, in either copy and made by either, to the text it was made from, whatever white space
surrounds it and with its scheme or without; and on every string at all the decoders agree, without raising. -/
theorem vpnUrl_roundTrip {z : Zlib} (hz : z.Undoes) :
    (∀ (text : Str) (data : List UInt8), text ≠ [] → Utf8.encode text = some data → data.length < 2 ^ 32 →
      ∃ body : Str, encodeVpnUrl z text = .ok (scheme ++ body) ∧ Vpnctl.encodeVpnUrl z text = .ok (scheme ++ body) ∧
        ∀ before after : Str, (∀ c ∈ before, isSpace c = true) → (∀ c ∈ after, isSpace c = true) →
          ∀ key, key = scheme ++ body ∨ key = body →
            decodeVpnUrl z (before ++ key ++ after) = .ok (some text) ∧
              Vpnctl.decodeVpnUrl z (before ++ key ++ after) = .ok text) ∧
      ∀ vpnUrl : Str, ∃ text, Vpnctl.decodeVpnUrl z vpnUrl = .ok text ∧
        decodeVpnUrl z vpnUrl = .ok (if text = [] then none else some text) := by
  refine ⟨fun text data htext hdata hsize => ?_, decodeVpnUrl_eq z⟩
  have hheader : pack data.length = .ok [_, _, _, _] := if_pos hsize
  have hkey := encodeVpnUrl_of_encode z hdata
  rw [hheader] at hkey
  refine ⟨_, hkey, (encodeVpnUrl_eq z text).trans hkey, fun before after hbefore hafter key hor => ?_⟩
  have hraw := b64decode_key (List.cons_ne_nil _ _) hbefore hafter hor
  have hne : data ≠ [] := by
    rintro rfl
    exact htext (Except.ok.inj (utf8Decode_encode hdata)).symm
  exact decodeVpnUrl_of_b64decode hraw hheader (hz data 8 (by decide)) hne (utf8Decode_encode hdata)

/-- Deflates `A` as `zlib` does, and stores anything else behind a zero. -/
def letterZlib : Zlib where
  compress data _ := if data = [0x41] then [0x78, 0xda, 0x73, 0x04, 0, 0, 0x42, 0, 0x42] else 0 :: data
  decompress
    | [0x78, 0xda, 0x73, 0x04, 0, 0, 0x42, 0, 0x42] => some [0x41]
    | 0 :: data => some data
    | _ => none

theorem letterZlib_undoes : letterZlib.Undoes := by
  intro data level _
  by_cases h : data = [0x41]
  · rw [h]
    rfl
  · unfold letterZlib
    simp only [if_neg h]

example : encodeVpnUrl letterZlib [65] = .ok ("vpn://AAAAAXjacwQAAEIAQg".toList.map Char.toNat) := by decide +kernel

theorem vpnUrl_roundTrip_letter : ∃ body, Vpnctl.encodeVpnUrl letterZlib [65] = .ok (scheme ++ body) ∧
    decodeVpnUrl letterZlib ([32] ++ body ++ [10]) = .ok (some [65]) := by
  obtain ⟨body, -, hkey, hback⟩ := (vpnUrl_roundTrip letterZlib_undoes).1 [65] [0x41] (by decide) rfl (by decide)
  exact ⟨body, hkey, (hback [32] [10] (by decide) (by decide) body (.inr rfl)).1⟩

end AmneziaCodec

end AmneziaVpnBot
