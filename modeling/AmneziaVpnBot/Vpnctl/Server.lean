import AmneziaVpnBot.Lib.Except
import AmneziaVpnBot.Lib.Number
import AmneziaVpnBot.Vpnctl.Config
import AmneziaVpnBot.Vpnctl.Address
import Mathlib.Data.List.AList
import Mathlib.Logic.Function.Basic

/-! What a server holds: its config, the files in its clients folder and the peers of its
live interface; and the steps the commands are made of. A step that fails leaves what was
done before it in place. The live interface behaves like the repository's `fake-awg`. -/

namespace AmneziaVpnBot.Vpnctl

open Text

/-- The settings of `vpnctl.conf` that the commands use, with their defaults. -/
structure Settings where
  interface : Text := "awg1".toList
  confDir : Text := "/etc/amnezia/amneziawg".toList
  endpointHost : Text := []
  endpointPort : Text := []
  clientDns : Text := "1.1.1.1, 9.9.9.9".toList
  clientMtu : Text := "1280".toList
  clientAllowedIps : Text := "0.0.0.0/0, ::/0".toList
  persistentKeepalive : Text := "25".toList

inductive Error
  | vpnctlError (message : Text)
  /-- Its message names the field, the value and the pattern it must match. -/
  | invalidInput (field value : Text)
  | notFound (message : Text)
  | osError (path : Text)
  /-- A `ValueError`, `TypeError` or `AttributeError` that no command catches. -/
  | uncaught
  deriving DecidableEq

def Error.exitCode : Error → ℕ
  | .invalidInput .. => 2
  | .notFound _ => 3
  | _ => 1

structure LivePeer where
  psk : Text
  allowedIps : Text
  latestHandshake : ℕ := 0
  rx : ℕ := 0
  tx : ℕ := 0
  deriving DecidableEq

/-- The two files a client has in the clients folder. -/
inductive Ext
  | conf
  | peer
  deriving DecidableEq

def Ext.text : Ext → Text
  | .conf => ".conf".toList
  | .peer => ".peer".toList

/-- A file that `write_private` replaces. -/
inductive Path
  | server
  | client (name : Text) (ext : Ext)
  deriving DecidableEq

structure Server where
  /-- `none` when the file does not exist -/
  conf : Option Text
  /-- The clients folder, by file name. -/
  clients : AList fun _ : Text => Text
  live : Text → Option LivePeer

def Server.readClientFile (s : Server) (name : Text) (ext : Ext) : Option Text := s.clients.lookup (name ++ ext.text)

def Server.write (s : Server) (text : Text) : Path → Server
  | .server => { s with conf := some text }
  | .client name ext => { s with clients := s.clients.insert (name ++ ext.text) text }

def Server.removeClientFile (s : Server) (name : Text) (ext : Ext) : Server :=
  { s with clients := s.clients.erase (name ++ ext.text) }

/-- `awg set <if> peer <pub> preshared-key <file> allowed-ips <ips>` -/
def Server.setPeer (s : Server) (pub psk allowedIps : Text) : Server :=
  let old := (s.live pub).getD { psk := [], allowedIps := [] }
  { s with live := Function.update s.live pub (some { old with psk := strip psk, allowedIps := allowedIps }) }

/-- `awg set <if> peer <pub> remove` -/
def Server.removePeer (s : Server) (pub : Text) : Server := { s with live := Function.update s.live pub none }

/-- The calls of `awg` that one command makes, each at most once. -/
inductive AwgCall
  | genkey
  | pubkey
  | genpsk
  | serverPubkey
  | setPeer
  | removePeer
  | showHandshakes
  | showTransfer
  deriving DecidableEq

/-- What a command meets outside of the server's own state. -/
structure Env where
  genkey : Text
  genpsk : Text
  pubkey : Text → Text
  /-- The host's public address, as far as it can be told. -/
  publicIp : Option Text
  /-- What a call of `awg` that fails prints; it has no effect then. -/
  awgError : AwgCall → Option Text
  /-- The file cannot be replaced; it keeps its old text then. -/
  replaceFails : Path → Bool

/-! ### Steps of a command -/

/-- A command or a part of one: what it returns or raises, and the server after it. -/
def Cmd (α : Type) := Server → Except Error α × Server

namespace Cmd

variable {α β : Type}

instance : Monad Cmd where
  pure a s := (.ok a, s)
  bind c f s := match c s with
    | (.ok a, t) => f a t
    | (.error e, t) => (.error e, t)

def get : Cmd Server := fun s => (.ok s, s)

def modify (f : Server → Server) : Cmd Unit := fun s => (.ok (), f s)

def throw (e : Error) : Cmd α := fun s => (.error e, s)

def ofExcept : Except Error α → Cmd α
  | .ok a => pure a
  | .error e => throw e

/-- When `c` fails, `cleanup` runs, whether it succeeds or not, and the error is raised again. -/
def onError (c : Cmd α) (cleanup : Cmd Unit) : Cmd α := fun s => match c s with
  | (.ok a, t) => (.ok a, t)
  | (.error e, t) => (.error e, (cleanup t).2)

@[simp] theorem pure_apply (a : α) (s : Server) : (pure a : Cmd α) s = (.ok a, s) := rfl

@[simp] theorem get_bind (f : Server → Cmd β) (s : Server) : (get >>= f) s = f s s := rfl

@[simp] theorem modify_bind (g : Server → Server) (f : Unit → Cmd β) (s : Server) :
    (modify g >>= f) s = f () (g s) := rfl

@[simp] theorem ofExcept_ok_bind (a : α) (f : α → Cmd β) (s : Server) : (ofExcept (.ok a) >>= f) s = f a s := rfl

@[simp] theorem ofExcept_error_bind (e : Error) (f : α → Cmd β) (s : Server) :
    (ofExcept (.error e) >>= f) s = (.error e, s) := rfl

theorem bind_of_ok {c : Cmd α} {s t : Server} {a : α} (h : c s = (.ok a, t)) (f : α → Cmd β) : (c >>= f) s = f a t := by
  simp [bind, h]

theorem bind_of_error {c : Cmd α} {s t : Server} {e : Error} (h : c s = (.error e, t)) (f : α → Cmd β) :
    (c >>= f) s = (.error e, t) := by
  simp [bind, h]

theorem bind_eq_ok {c : Cmd α} {f : α → Cmd β} {b : β} {s t : Server} :
    (c >>= f) s = (.ok b, t) ↔ ∃ a u, c s = (.ok a, u) ∧ f a u = (.ok b, t) := by
  cases hc : c s with
  | mk result u => cases result with
    | error err => simp [bind_of_error hc]
    | ok a => simp [bind_of_ok hc]

theorem snd_return (c : Cmd α) (f : α → β) (s : Server) : ((do return f (← c) : Cmd β) s).2 = (c s).2 := by
  rcases h : c s with ⟨_ | a, t⟩
  · rw [bind_of_error h]
  · rw [bind_of_ok h, pure_apply]

theorem of_return_ok {c : Cmd α} {f : α → β} {b : β} {s t : Server} (h : (do return f (← c) : Cmd β) s = (.ok b, t)) :
    ∃ a, c s = (.ok a, t) ∧ f a = b := by
  obtain ⟨a, u, hc, hreturn⟩ := bind_eq_ok.mp h
  obtain ⟨hb, rfl⟩ := Prod.mk.inj hreturn
  exact ⟨a, hc, Except.ok.inj hb⟩

theorem return_ok {c : Cmd α} {s t : Server} {a : α} (h : c s = (.ok a, t)) (f : α → β) :
    (do return f (← c) : Cmd β) s = (.ok (f a), t) := by
  rw [bind_of_ok h]
  rfl

theorem exists_ok {c : Cmd α} {s : Server} (h : (c s).1.isOk = true) : ∃ a, c s = (.ok a, (c s).2) :=
  (Except.isOk_iff.mp h).imp fun _ ha => Prod.ext ha rfl

theorem exists_error {c : Cmd α} {s : Server} (h : (c s).1.isOk = false) : ∃ err, c s = (.error err, (c s).2) :=
  (Except.not_isOk_iff.mp h).imp fun _ herr => Prod.ext herr rfl

end Cmd

def awgRun (e : Env) (call : AwgCall) (args stdout : Text) : Except Error Text :=
  match e.awgError call with
  | some stderr => .error (.vpnctlError ("awg ".toList ++ args ++ " failed: ".toList ++ stderr))
  | none => .ok (strip stdout)

/-- A value that is missing cannot be written to the key's file or passed to `awg`. -/
def awgSetPeer (cfg : Settings) (e : Env) (pub psk allowedIps : Option Text) : Cmd Unit :=
  match pub, psk, allowedIps with
  | some pub, some psk, some allowedIps => do
    let _ ← Cmd.ofExcept (awgRun e .setPeer ("set ".toList ++ cfg.interface) [])
    Cmd.modify (·.setPeer pub psk allowedIps)
  | _, _, _ => Cmd.throw .uncaught

def awgRemovePeer (cfg : Settings) (e : Env) (pub : Text) : Cmd Unit := do
  let _ ← Cmd.ofExcept (awgRun e .removePeer ("set ".toList ++ cfg.interface) [])
  Cmd.modify (·.removePeer pub)

def Path.text (cfg : Settings) : Path → Text
  | .server => cfg.interface ++ ".conf".toList
  | .client name ext => name ++ ext.text

def writePrivate (cfg : Settings) (e : Env) (path : Path) (text : Text) : Cmd Unit :=
  if e.replaceFails path then Cmd.throw (.osError (path.text cfg)) else Cmd.modify (·.write text path)

def readConf (cfg : Settings) (s : Server) : Except Error Text :=
  match s.conf with
  | some conf => .ok conf
  | none => .error (.vpnctlError ("Server config not found: ".toList ++ Path.server.text cfg))

/-! ### Input checks -/

def isIdentifierChar (c : Char) : Bool := isLetter c || isDigit c || c == '_' || c == '-'

/-- 1 to 64 characters from `A-Z a-z 0-9 _ -`. -/
def isIdentifier (t : Text) : Bool := !t.isEmpty && t.length ≤ 64 && t.all isIdentifierChar

/-- `$` also matches before a newline at the end. -/
def beforeNewline (t : Text) : Text := if t.getLast? = some '\n' then t.dropLast else t

def validateIdentifier (field value : Text) : Except Error Text :=
  if isIdentifier (beforeNewline value) then .ok value else .error (.invalidInput field value)

/-- `t.replace(pattern, "")`; the number counts the characters still to be left out. -/
def removeAll (pattern : Text) : ℕ → Text → Text
  | _, [] => []
  | skip + 1, _ :: cs => removeAll pattern skip cs
  | 0, c :: cs =>
    if pattern.isPrefixOf (c :: cs) then removeAll pattern (pattern.length - 1) cs else c :: removeAll pattern 0 cs

/-- Hex digits as `int` takes them, with single underscores between them. -/
def isHexNumber (afterDigit : Bool) : Text → Bool
  | [] => afterDigit
  | c :: cs => if c = '_' then afterDigit && isHexNumber false cs else (hexValue c).isSome && isHexNumber true cs

/-- A decimal digit of another script as `int` reads it. -/
def asciiDigit (c : Char) : Char :=
  if c.toNat < 128 then c else ((Json.digitValue c.toNat).map Nat.digitChar).getD c

/-- What `int` skips around the digits. -/
def isPadding (c : Char) : Bool := Json.isPadding c.toNat

def isBrace (c : Char) : Bool := c == '{' || c == '}'

/-- The hex digits of a UUID: what is left without the URN parts, braces and hyphens, the decimal
digits of other scripts as `int` takes them. -/
def uuidDigits (value : Text) : Text :=
  let hex := removeAll "uuid:".toList 0 (removeAll "urn:".toList 0 value)
  (((hex.dropWhile isBrace).rdropWhile isBrace).filter (· ≠ '-')).map asciiDigit

/-- What `uuid.UUID` takes: 32 hex digits that `int` reads. -/
def isUuid (value : Text) : Bool :=
  let hex := uuidDigits value
  let number := (hex.dropWhile isPadding).rdropWhile isPadding
  let number := if number.head? = some '+' then number.tail else number
  let number := match number with
    | '0' :: 'x' :: '_' :: ds | '0' :: 'X' :: '_' :: ds | '0' :: 'x' :: ds | '0' :: 'X' :: ds => ds
    | ds => ds
  hex.length = 32 && isHexNumber false number

example : isUuid (List.replicate 31 (Char.ofNat 0x663) ++ ['F']) = true := by decide

def validateUuid (value : Text) : Except Error Unit :=
  if isUuid value then .ok () else .error (.invalidInput "UUID".toList value)

/-! ### Addresses in use -/

def afterLine (t : Text) : Text := (t.dropWhile (· ≠ '\n')).drop 1

/-- The groups of `^\s*AllowedIPs\s*=\s*(.+)$` in a text that starts at the start of a line. White
space may run over line ends; a group of blanks only, which names no address, is left empty. -/
def allowedIps : ℕ → Text → List Text
  | 0, _ => []
  | fuel + 1, text =>
    match matchKey allowedIpsKey text with
    | some rest =>
      let value := rest.dropWhile isSpace
      value.takeWhile (· ≠ '\n') :: allowedIps fuel (afterLine value)
    | none => allowedIps fuel (afterLine text)

/-- The addresses of a list of interfaces, leaving out what is not one. -/
def listedIps (value : Text) : List Ip :=
  (value.splitOn ',').filterMap fun part => (parseInterface (strip part)).map (·.ip)

def addresses (text : Text) : List Ip := (allowedIps text.length text).flatMap listedIps

/-- The texts of the saved blocks of all clients. -/
def Server.savedTexts (s : Server) : List Text :=
  (s.clients.entries.filter fun f => Ext.peer.text.isSuffixOf f.1).map Sigma.snd

def usedAddresses (s : Server) (conf : Text) (includeSaved : Bool) : List Ip :=
  (conf :: if includeSaved then s.savedTexts else []).flatMap addresses

end AmneziaVpnBot.Vpnctl
