import AmneziaVpnBot.Vpnctl.PeerBlock
import AmneziaVpnBot.Vpnctl.Effects

/-! What a server's stores say together: which clients it has, and which of them are turned
on. The config, the client files and the live interface represent one roster, and when
nothing fails each command takes the roster's own step. -/

namespace AmneziaVpnBot.Vpnctl

open Text

/-- The clients by name, and those that are turned on in the order of their blocks. -/
structure Roster where
  saved : Text → Option Peer
  enabled : List Peer
  name_eq : ∀ n p, saved n = some p → p.name = n
  listed : ∀ p ∈ enabled, saved p.name = some p
  nodup : (enabled.map Peer.name).Nodup
  keys : ∀ n m p q, saved n = some p → saved m = some q → p.pub = q.pub → n = m

namespace Roster

/-- No clients. -/
def empty : Roster where
  saved _ := none
  enabled := []
  name_eq := by simp
  listed := by simp
  nodup := List.nodup_nil
  keys := by simp

theorem eq_of_mem (r : Roster) {p q : Peer} (hp : p ∈ r.enabled) (hq : r.saved p.name = some q) : q = p :=
  Option.some.inj (hq.symm.trans (r.listed p hp))

/-- A client's name and key are its own. -/
theorem name_of_pub (r : Roster) {p q : Peer} (hp : p ∈ r.enabled) (hq : q ∈ r.enabled) (h : p.pub = q.pub) :
    p.name = q.name :=
  r.keys _ _ p q (r.listed p hp) (r.listed q hq) h

/-- A new client, turned on. -/
def add (r : Roster) (p : Peer) (hnew : r.saved p.name = none) (hfresh : ∀ n q, r.saved n = some q → q.pub ≠ p.pub) :
    Roster where
  saved := Function.update r.saved p.name (some p)
  enabled := r.enabled ++ [p]
  name_eq n q h := by
    rw [Function.update_apply] at h
    split_ifs at h with hn
    · rw [hn, Option.some.inj h]
    · exact r.name_eq n q h
  listed q hq := by
    rcases List.mem_append.mp hq with hq | hq
    · have hne : q.name ≠ p.name := fun h => by simp [← h, r.listed q hq] at hnew
      rw [Function.update_of_ne hne, r.listed q hq]
    · rw [List.mem_singleton.mp hq, Function.update_self]
  nodup := by
    rw [List.map_append, List.nodup_append]
    refine ⟨r.nodup, List.nodup_singleton _, ?_⟩
    rintro _ hn _ hm rfl
    obtain ⟨q, hq, hqn⟩ := List.mem_map.mp hn
    simp only [List.map_cons, List.map_nil, List.mem_singleton] at hm
    simp [← hm, ← hqn, r.listed q hq] at hnew
  keys n m q u hq hu h := by
    rw [Function.update_apply] at hq hu
    split_ifs at hq hu with hn hm hm
    · rw [hn, hm]
    · exact absurd h.symm (Option.some.inj hq ▸ hfresh m u hu)
    · exact absurd h (Option.some.inj hu ▸ hfresh n q hq)
    · exact r.keys n m q u hq hu h

def turnOff (r : Roster) (name : Text) : Roster where
  saved := r.saved
  enabled := r.enabled.filter (·.name ≠ name)
  name_eq := r.name_eq
  listed p hp := r.listed p (List.mem_of_mem_filter hp)
  nodup := r.nodup.sublist (List.filter_sublist.map _)
  keys := r.keys

@[simp] theorem saved_turnOff (r : Roster) (name : Text) : (r.turnOff name).saved = r.saved := rfl

def turnOn (r : Roster) (p : Peer) (hsaved : r.saved p.name = some p) (hoff : ∀ q ∈ r.enabled, q.name ≠ p.name) :
    Roster where
  saved := r.saved
  enabled := r.enabled ++ [p]
  name_eq := r.name_eq
  listed q hq := by
    rcases List.mem_append.mp hq with hq | hq
    · exact r.listed q hq
    · rw [List.mem_singleton.mp hq, hsaved]
  nodup := by
    rw [List.map_append, List.nodup_append]
    refine ⟨r.nodup, List.nodup_singleton _, ?_⟩
    rintro _ hn _ hm rfl
    obtain ⟨q, hq, hqn⟩ := List.mem_map.mp hn
    simp only [List.map_cons, List.map_nil, List.mem_singleton] at hm
    exact hoff q hq (hqn.trans hm)
  keys := r.keys

@[simp] theorem saved_turnOn (r : Roster) (p : Peer) (hsaved : r.saved p.name = some p)
    (hoff : ∀ q ∈ r.enabled, q.name ≠ p.name) : (r.turnOn p hsaved hoff).saved = r.saved := rfl

def drop (r : Roster) (name : Text) : Roster where
  saved := Function.update r.saved name none
  enabled := r.enabled.filter (·.name ≠ name)
  name_eq n p h := by
    rw [Function.update_apply] at h
    split_ifs at h
    exact r.name_eq n p h
  listed p hp := by
    obtain ⟨hp, hne⟩ := List.mem_filter.mp hp
    rw [Function.update_of_ne (by simpa using hne), r.listed p hp]
  nodup := r.nodup.sublist (List.filter_sublist.map _)
  keys n m p q hp hq h := by
    rw [Function.update_apply] at hp hq
    split_ifs at hp hq
    exact r.keys n m p q hp hq h

end Roster

/-! ### Representation -/

/-- A live peer as `awg` was told to set it up. -/
def Server.liveAs (s : Server) (pub : Text) : Option (Text × Text) :=
  (s.live pub).map fun l => (l.psk, l.allowedIps)

/-- The server's stores hold this roster. -/
structure Represents (s : Server) (r : Roster) : Prop where
  conf : ∃ conf, s.conf = some conf ∧ blocks conf = r.enabled.map fun p => rstripNl p.block
  peerFile : ∀ n, s.readClientFile n .peer = (r.saved n).map Peer.block
  confFile : ∀ n, (s.readClientFile n .conf).isSome = (r.saved n).isSome
  live : ∀ k v, s.liveAs k = some v ↔ ∃ p ∈ r.enabled, p.pub = k ∧ (p.psk, p.ips) = v

theorem liveAs_setPeer (s : Server) (pub psk ips k : Text) :
    (s.setPeer pub psk ips).liveAs k = if k = pub then some (strip psk, ips) else s.liveAs k := by
  rw [Server.liveAs, live_setPeer]
  split_ifs <;> rfl

theorem liveAs_dropKey (s : Server) (pub : Option Text) (k : Text) :
    (s.dropKey pub).liveAs k = if pub = some k then none else s.liveAs k := by
  rw [Server.liveAs, live_dropKey]
  split_ifs <;> rfl

section
variable {s : Server} {r : Roster} {conf name : Text}

theorem Represents.blocks (hr : Represents s r) (hconf : s.conf = some conf) :
    Vpnctl.blocks conf = r.enabled.map fun p => rstripNl p.block := by
  obtain ⟨conf', hconf', hblocks⟩ := hr.conf
  rwa [Option.some.inj (hconf.symm.trans hconf')]

/-- What `find_peer` finds is the client that is turned on under that name. -/
theorem Represents.findPeer (hr : Represents s r) (hconf : s.conf = some conf) (name : Text) :
    (Vpnctl.findPeer conf name).map (fun b => (rstripNl b.1, b.2)) =
      (r.enabled.find? fun p => p.name = name).map fun p => (rstripNl p.block, some p.pub) := by
  rw [findPeer_map, hr.blocks hconf, List.find?_map, Option.map_map]
  have hpred : ((fun b => decide (blockName b = some name)) ∘ fun p : Peer => rstripNl p.block) =
      fun p => decide (p.name = name) := by
    funext p
    simp
  rw [hpred]
  refine congrArg (fun f => Option.map f _) (funext fun p => ?_)
  simp [blockValue_rstripNl (by decide : IsWord publicKey)]

theorem Represents.of_findPeer_none (hr : Represents s r) (hconf : s.conf = some conf)
    (h : Vpnctl.findPeer conf name = none) : ∀ p ∈ r.enabled, p.name ≠ name := by
  have hfind := hr.findPeer hconf name
  rw [h, Option.map_none, eq_comm, Option.map_eq_none_iff, List.find?_eq_none] at hfind
  exact fun p hp => by simpa using hfind p hp

theorem Represents.of_findPeer_some (hr : Represents s r) (hconf : s.conf = some conf) {block : Text}
    {pub : Option Text}
    (h : Vpnctl.findPeer conf name = some (block, pub)) :
    ∃ p ∈ r.enabled, p.name = name ∧ rstripNl block = rstripNl p.block ∧ pub = some p.pub := by
  have hfind := hr.findPeer hconf name
  rw [h, Option.map_some, eq_comm, Option.map_eq_some_iff] at hfind
  obtain ⟨p, hp, heq⟩ := hfind
  obtain ⟨hblock, hpub⟩ := Prod.mk.inj heq
  exact ⟨p, List.mem_of_find?_eq_some hp, by simpa using List.find?_some hp, hblock.symm, hpub.symm⟩

theorem Represents.savedKey (hr : Represents s r) (name : Text) : savedKey s name = (r.saved name).map Peer.pub := by
  rw [Vpnctl.savedKey, hr.peerFile]
  cases r.saved name with
  | none => rfl
  | some p =>
    have hne : p.block ≠ [] := by
      intro h
      have := p.splitlines_block
      rw [h] at this
      cases this
    simp only [Option.map_some, if_neg hne]
    rw [getValue_savedLines p.plain_block (by decide), p.publicKey_block]

/-- The settings of a client's block, wherever it was read. -/
theorem peerValues_of_rstripNl {block : Text} {p : Peer} (h : rstripNl block = rstripNl p.block) :
    peerValues block = some (p.pub, p.psk, p.ips) := by
  have hpub := getValue_of_rstripNl h p.plain_block (by decide : IsWord publicKey)
  have hpsk := getValue_of_rstripNl h p.plain_block (by decide : IsWord presharedKey)
  have hips := getValue_of_rstripNl h p.plain_block (by decide : IsWord allowedIpsKey)
  rw [p.publicKey_block] at hpub
  rw [p.presharedKey_block] at hpsk
  rw [p.allowedIps_block] at hips
  rw [peerValues, hpub, hpsk, hips]
  rfl

end

end AmneziaVpnBot.Vpnctl
