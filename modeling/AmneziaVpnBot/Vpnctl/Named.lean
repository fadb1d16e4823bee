import AmneziaVpnBot.Vpnctl.Frame
import AmneziaVpnBot.Vpnctl.Success
import AmneziaVpnBot.Vpnctl.Again

/-! The name a client was created with, as the other commands look it up. It is checked by one
pattern, written into a comment and read back by another, and the two agree on every name but
those that end with a newline, which `$` lets pass. -/

namespace AmneziaVpnBot.Vpnctl

open Text

variable {cfg : Settings} {e : Env} {s t : Server} {label : Text}

/-- Letters, digits, `_` and `-`, and the ending of one of the client's files. -/
def IsClientFile (f : Text) : Prop := ∃ (stem : Text) (x : Ext), f = stem ++ x.text ∧ stem.all isIdentifierChar = true

/-- The client is in neither the config nor the live interface. -/
structure TurnedOff (label pub : Text) (u : Server) : Prop where
  config : ∃ conf, u.conf = some conf ∧ findPeer conf label = none
  live : u.live pub = none

/-- The client that `create-peer` made of `s` is the one that name stands for. -/
structure FoundByName (cfg : Settings) (e : Env) (label : Text) (s t : Server) : Prop where
  block : ∃ conf block, t.conf = some conf ∧ t.readClientFile label .peer = some block ∧
    findPeer conf label = some (block, some e.newPub)
  files : ∀ f ∈ t.clients, f ∉ s.clients → IsClientFile f
  disable : ∀ e' r u, disablePeer cfg e' label t = (.ok r, u) → r = ⟨label, true⟩ ∧ TurnedOff label e.newPub u
  remove : ∀ e' r u, removePeer cfg e' label t = (.ok r, u) → TurnedOff label e.newPub u

/-! ### Names in comments -/

theorem word_of_peerName {lines : List Text} {name : Text} (h : peerName lines = some name) :
    ∀ c ∈ name, isSpace c = false := by
  unfold peerName at h
  split at h
  · unfold commentWord at h
    split at h
    · obtain ⟨hword, hname⟩ := Option.ite_none_right_eq_some.mp h
      rw [← Option.some.inj hname]
      exact hword.2
    · cases h
  · cases h

/-- A name with white space in it is never found. -/
theorem findPeer_of_space {c : Char} (hc : c ∈ label) (hspace : isSpace c = true) (conf : Text) :
    findPeer conf label = none := by
  rw [findPeer, Option.map_eq_none_iff, List.find?_eq_none]
  intro sec _ hpeer
  simp only [Section.isPeer, Bool.and_eq_true, beq_iff_eq] at hpeer
  rw [word_of_peerName hpeer.2 c hc] at hspace
  cases hspace

theorem isPeer_of_findPeer_eq_none {conf name : Text} (h : findPeer conf name = none) :
    ∀ s ∈ splitSections conf, s.isPeer name = false := by
  rw [findPeer, Option.map_eq_none_iff, List.find?_eq_none] at h
  simpa only [Bool.not_eq_true] using h

/-! ### What a create leaves -/

theorem saved_created (s : Server) (name : Text) (p : Plan) :
    (s.created name p).readClientFile name .peer = some (peerBlock name p.pub p.psk p.allowedIps) := by
  simp [Server.created, readClientFile_write]

theorem mem_clients_created {s : Server} {name f : Text} {p : Plan} (h : f ∈ (s.created name p).clients) :
    (∃ x : Ext, f = name ++ x.text) ∨ f ∈ s.clients := by
  change f ∈ ((s.clients.insert (name ++ Ext.peer.text) _).insert (name ++ Ext.conf.text) _ :
    AList fun _ : Text => Text) at h
  rw [AList.mem_insert, AList.mem_insert] at h
  rcases h with h | h | h
  · exact .inl ⟨.conf, h⟩
  · exact .inl ⟨.peer, h⟩
  · exact .inr h

/-- A label that ends in no newline is an identifier. -/
theorem isIdentifier_of_valid {field value : Text} (h : validateIdentifier field value = .ok value)
    (hend : value.getLast? ≠ some '\n') : isIdentifier value = true := by
  rw [validateIdentifier, beforeNewline, if_neg hend] at h
  by_contra hnot
  rw [if_neg hnot] at h
  cases h

theorem Peer.findPeer_addBlock (p : Peer) {conf : Text} (h : findPeer conf p.name = none) :
    findPeer (addBlock conf p.block) p.name = some (p.block, some p.pub) := by
  rw [(addsOnly (isPeer_of_findPeer_eq_none h) p.isBlock).found, p.publicKey_block]

/-- A client created under a new name is found again under it exactly if the name does not end with a newline. -/
theorem foundByName_iff {id : Text} {r : PeerResult} (hkeys : e.WordKeys) (hfile : s.readClientFile label .conf = none)
    (hblock : ∀ conf, s.conf = some conf → findPeer conf label = none)
    (hcreate : createPeer cfg e id label s = (.ok r, t)) :
    FoundByName cfg e label s t ↔ label.getLast? ≠ some '\n' := by
  obtain ⟨hvalid, ⟨text, hexists, -⟩ | ⟨p, -, hplan, rfl, -⟩⟩ := createPeer_done hcreate
  · rw [hfile] at hexists
    cases hexists
  constructor
  · intro h hend
    obtain ⟨conf, block, -, -, hfound⟩ := h.block
    rw [findPeer_of_space (List.mem_of_getLast? hend) (by decide)] at hfound
    cases hfound
  · intro hend
    have hidentifier := isIdentifier_of_valid hvalid hend
    obtain ⟨conf, -, -, -, -, ip, hconf, -, -, hpub, hpsk, hips, hpconf⟩ := planCreate_eq_ok hplan
    let peer : Peer := ⟨label, p.pub, p.psk, p.allowedIps, isWord_of_isIdentifier hidentifier, hpub ▸ hkeys.pub,
      hpsk ▸ hkeys.psk, hips ▸ isWord_allowedIps ip⟩
    have hfound : findPeer (addBlock p.conf peer.block) label = some (peer.block, some e.newPub) := by
      rw [← hpub]
      exact peer.findPeer_addBlock (hblock p.conf (hpconf ▸ hconf))
    refine ⟨⟨_, _, rfl, saved_created s label p, hfound⟩, ?_, ?_, ?_⟩
    · intro f hf hnew
      obtain ⟨x, rfl⟩ | hold := mem_clients_created hf
      · simp only [isIdentifier, Bool.and_eq_true] at hidentifier
        exact ⟨label, x, rfl, hidentifier.2⟩
      · exact absurd hold hnew
    · intro e' r' u hdisable
      obtain ⟨conf', hconf', hcases⟩ := disablePeer_done hdisable
      obtain rfl : addBlock p.conf peer.block = conf' := Option.some.inj hconf'
      rcases hcases with ⟨hnone, -⟩ | ⟨block, pub, hsome, hr, rfl⟩
      · rw [hfound] at hnone
        cases hnone
      · rw [hfound] at hsome
        obtain ⟨rfl, rfl⟩ := Prod.mk.inj (Option.some.inj hsome)
        refine ⟨hr, ⟨_, conf_dropKey _ _, findPeer_withoutPeer _ _⟩, ?_⟩
        rw [live_dropKey, if_pos rfl]
    · intro e' r' u hremove
      obtain ⟨conf', hconf', rfl⟩ := removePeer_done hremove
      obtain rfl : addBlock p.conf peer.block = conf' := Option.some.inj hconf'
      have hunlisted : (s.created label p).unlisted (addBlock p.conf peer.block) label =
          ((s.created label p).write (withoutPeer (addBlock p.conf peer.block) label) .server, some e.newPub) := by
        rw [Server.unlisted, hfound]
      rw [hunlisted]
      refine ⟨⟨_, conf_dropKey _ _, findPeer_withoutPeer _ _⟩, ?_⟩
      rw [Server.withoutFiles, live_removeClientFile, live_removeClientFile, live_dropKey, if_pos rfl]

/-- The first client of a new server. -/
theorem foundByName_iff_first :
    ∃ r t, createPeer smallSettings (smallEnv "a2V5".toList) smallId "a-1".toList smallServer = (.ok r, t) ∧
      FoundByName smallSettings (smallEnv "a2V5".toList) "a-1".toList smallServer t := by
  obtain ⟨r, h⟩ := Cmd.exists_ok (c := createPeer smallSettings (smallEnv "a2V5".toList) smallId "a-1".toList)
    (s := smallServer) (by decide +kernel)
  exact ⟨r, _, h, (foundByName_iff ⟨by decide +kernel, by decide +kernel⟩ rfl
    (fun conf hconf => Option.some.inj hconf ▸ by decide +kernel) h).mpr (by decide +kernel)⟩

/-- A label that ends with a newline is accepted, and its client is not found again. -/
theorem not_foundByName_newline :
    ∃ (cfg : Settings) (e : Env) (s t : Server) (id label : Text) (r : PeerResult), e.WordKeys ∧
      s.clients = ∅ ∧ (∀ conf, s.conf = some conf → findPeer conf label = none) ∧
      createPeer cfg e id label s = (.ok r, t) ∧ ¬ FoundByName cfg e label s t := by
  obtain ⟨r, h⟩ := Cmd.exists_ok (c := createPeer smallSettings (smallEnv "a2V5".toList) smallId "bob\n".toList)
    (s := smallServer) (by decide +kernel)
  refine ⟨_, _, _, _, _, _, r, ⟨by decide +kernel, by decide +kernel⟩, rfl,
    fun conf hconf => Option.some.inj hconf ▸ by decide +kernel, h, fun hfound => ?_⟩
  obtain ⟨conf, block, hconf, -, hfind⟩ := hfound.block
  obtain rfl := Option.some.inj hconf
  revert hfind
  rw [findPeer_of_space (c := '\n') (by decide) (by decide)]
  exact nofun

end AmneziaVpnBot.Vpnctl
