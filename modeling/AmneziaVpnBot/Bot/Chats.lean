import AmneziaVpnBot.Bot.Refines
import AmneziaVpnBot.Support.Active

/-! The conversations about tickets. What the bot does with its updates is a run of the support desk as it was modelled
on its own: a customer's message goes to the customer's own ticket, and only admins answer and close tickets. -/

namespace AmneziaVpnBot.Bot

open Support (Conversation Expects)

variable {settings : BotSettings} {s t : State} {u : Update} {draw : Draw}

/-- What a conversation expects next, as far as tickets go. -/
def Chat.expects (chat : Chat) : Expects :=
  match chat.state with
  | .writingMessage => .supportMessage
  | .waitingForReply => chat.ticketId.elim .nothing .replyTo
  | _ => .nothing

/-- The support desk in a state of the bot. -/
def State.support (s : State) : Support.State := ⟨s.now, s.db.support, fun k => (s.chats k).expects⟩

/-- The steps of the support desk that a step of the bot may take. -/
def MayWrite (settings : BotSettings) (s : State) : Step → Support.Step → Prop
  | .update u _, .support k | .update u _, .leave k => s.Welcome u ∧ k = u.conversation
  | .update u draw, .supportMessage k user code message =>
    s.Welcome u ∧ k = u.conversation ∧ user = s.sender u ∧ code = draw.ticketCode ∧ u.content.incoming = some message
  | .update u _, .ticketReply k message =>
    s.Welcome u ∧ k = u.conversation ∧ settings.isAdmin u.sender.id = true ∧ u.content.incoming = some message
  | .update u _, .replyTicket k _ | .update u _, .closeTicket k _ =>
    s.Welcome u ∧ k = u.conversation ∧ settings.isAdmin u.sender.id = true
  | .restart _, .leave _ => True
  | .system (.tick d), .tick d' => d' = d
  | _, _ => False

/-! ### Updates -/

theorem expects_update (chats : Conversation → Chat) (k : Conversation) (chat : Chat) :
    (fun j => (Function.update chats k chat j).expects) =
      Function.update (fun j => (chats j).expects) k chat.expects := by
  funext j
  rw [Function.apply_update fun _ => Chat.expects]

/-- What the support desk does during an update: nothing, or one step. -/
def Desk (settings : BotSettings) (s : State) (u : Update) (draw : Draw) (v : Support.State) : Prop :=
  ∃ bs, Machine.run (Support.step settings.isAdmin) s.support bs = some v ∧
    ∀ b ∈ bs, MayWrite settings s (.update u draw) b

theorem desk_refl (s : State) (u : Update) (draw : Draw) : Desk settings s u draw s.support := ⟨[], rfl, by simp⟩

theorem desk_one {v : Support.State} {b : Support.Step} (h : Support.step settings.isAdmin s.support b = some v)
    (hmay : MayWrite settings s (.update u draw) b) : Desk settings s u draw v := by
  refine ⟨[b], ?_, fun b' hb => ?_⟩
  · rw [Machine.run_cons, h]
    rfl
  · rwa [List.mem_singleton.mp hb]

theorem update_expects {chat : Chat} (h : chat.expects = (s.chats u.conversation).expects) :
    (fun j => (Function.update s.chats u.conversation chat j).expects) = fun j => (s.chats j).expects := by
  rw [expects_update, h]
  exact Function.update_eq_self u.conversation fun j => (s.chats j).expects

/-- A handler that leaves the tickets alone, and the conversation as far as they go. -/
theorem desk_of_expects {db : Database} {chat : Chat} (hsupport : db.support = s.db.support)
    (hexpects : chat.expects = (s.chats u.conversation).expects) :
    Desk settings s u draw
      (State.support { s with db := db, chats := Function.update s.chats u.conversation chat }) := by
  have hsame : State.support { s with db := db, chats := Function.update s.chats u.conversation chat } = s.support := by
    simp only [State.support, hsupport, update_expects hexpects]
  rw [hsame]
  exact desk_refl s u draw

theorem expects_of_writing {chat : Chat} (h : chat.state = .writingMessage) : chat.expects = .supportMessage := by
  rw [Chat.expects, h]

theorem expects_of_waiting {chat : Chat} (h : chat.state = .waitingForReply) {i : Support.TicketId}
    (hid : chat.ticketId = some i) : chat.expects = .replyTo i := by
  rw [Chat.expects, h, hid]
  rfl

theorem desk_wrote {db : Database} {chat : Chat} (hwelcome : s.Welcome u)
    (h : Wrote (s.context settings u draw) u.content.incoming (s.entered u) db chat) :
    Desk settings s u draw
      (State.support { s with db := db, chats := Function.update s.chats u.conversation chat }) := by
  have hleave : ∀ db : Database, db.support = s.db.support → ∀ chat : Chat, chat.expects = .nothing →
      Desk settings s u draw
        (State.support { s with db := db, chats := Function.update s.chats u.conversation chat }) := by
    intro db hsupport chat hexpects
    refine desk_one (b := .leave u.conversation) ?_ ⟨hwelcome, rfl⟩
    simp only [Support.step, Support.State.expect, State.support, hsupport, expects_update, hexpects]
  have hadmin' : (s.context settings u draw).isAdmin = true → settings.isAdmin u.conversation.2 = true := by
    intro h
    rw [conversation_snd]
    exact h
  cases h with
  | looked hchat =>
    rcases hchat with rfl | rfl | rfl
    · exact desk_of_expects rfl rfl
    · exact hleave _ rfl _ rfl
    · refine desk_one (b := .support u.conversation) ?_ ⟨hwelcome, rfl⟩
      simp only [Support.step, Support.State.expect, State.support, expects_update]
      rfl
  | language | bought | renewed | receipt => exact hleave _ rfl _ rfl
  | redelivered | approved | rejected | toggled | blocked | extended | retried => exact desk_of_expects rfl rfl
  | @messaged message hmessage hstate i hactive =>
    refine desk_one (b := .supportMessage u.conversation (s.sender u) draw.ticketCode message) ?_
      ⟨hwelcome, rfl, rfl, rfl, hmessage⟩
    have hexpects : s.support.expects u.conversation = .supportMessage := expects_of_writing hstate
    have hactive' : Support.getActiveTicketForUser s.support.db.tickets (s.sender u) = .ok (some i) := hactive
    simp only [Support.step, hexpects, Support.handleSupportMessage, hactive']
    simp only [Support.State.expect, State.support, expects_update, conversation_snd]
    rfl
  | @opened message hmessage hstate support hactive hticket =>
    refine desk_one (b := .supportMessage u.conversation (s.sender u) draw.ticketCode message) ?_
      ⟨hwelcome, rfl, rfl, rfl, hmessage⟩
    have hexpects : s.support.expects u.conversation = .supportMessage := expects_of_writing hstate
    have hactive' : Support.getActiveTicketForUser s.support.db.tickets (s.sender u) = .ok none := hactive
    have hticket' : Support.createTicket s.support.db draw.ticketCode (s.sender u)
        ((message.bodyText "Media attachment").take 40).toString (message.bodyText "Media attachment") u.conversation.2
        message.fileId message.mediaType = some support := by
      rw [conversation_snd]
      exact hticket
    simp only [Support.step, hexpects, Support.handleSupportMessage, hactive', hticket']
    simp only [Support.State.expect, State.support, expects_update]
    rfl
  | @replying i hadmin hticket =>
    refine desk_one (b := .replyTicket u.conversation i) ?_ ⟨hwelcome, rfl, hadmin⟩
    have hguard : (settings.isAdmin u.conversation.2 && (s.support.db.tickets[i]?).isSome) = true := by
      rw [hadmin' hadmin, Bool.true_and]
      exact hticket
    simp only [Support.step, hguard, ↓reduceIte]
    simp only [Support.State.expect, State.support, expects_update]
    rfl
  | @replied message hmessage hadmin hstate i hid hticket =>
    refine desk_one (b := .ticketReply u.conversation message) ?_ ⟨hwelcome, rfl, hadmin, hmessage⟩
    have hexpects : s.support.expects u.conversation = .replyTo i := expects_of_waiting hstate hid
    obtain ⟨ticket, hrow⟩ := Option.isSome_iff_exists.mp hticket
    have hrow' : s.support.db.tickets[i]? = some ticket := hrow
    simp only [Support.step, hexpects, hadmin' hadmin, ↓reduceIte, Support.handleAdminTicketReply, hrow']
    simp only [Support.State.expect, State.support, expects_update, conversation_snd]
    rfl
  | closed hadmin i =>
    refine desk_one (b := .closeTicket u.conversation i) ?_ ⟨hwelcome, rfl, hadmin⟩
    have hself : (fun j => (Function.update s.chats u.conversation (s.chats u.conversation) j).expects) =
        fun j => (s.chats j).expects := update_expects rfl
    simp only [Support.step, hadmin' hadmin, ↓reduceIte, State.support, State.context, hself]
    rfl

theorem update_desk (h : Handled settings s u draw t) : Desk settings s u draw t.support := by
  cases h with
  | untaken => exact desk_refl s u draw
  | stopped => exact desk_refl s u draw
  | through hwelcome hwrote => exact desk_wrote hwelcome hwrote

/-! ### Other steps -/

/-- Only the clock moves the time. -/
theorem now_step {a : Lifecycle.Step} {v w : Lifecycle.State} (h : Lifecycle.step settings.toSettings v a = some w) :
    w.now = v.now ∨ ∃ d, a = .tick d ∧ w.now = v.now + d := by
  cases a with
  | tick d =>
    cases h
    exact .inr ⟨d, rfl, rfl⟩
  | submitReceipt | approve | reject | checkExpired | cleanup | crash =>
    cases h
    exact .inl rfl
  | extend | redeliver | retry | write =>
    obtain ⟨db, -, rfl⟩ := Option.map_eq_some_iff.mp h
    exact .inl rfl
  | startOrder user server product =>
    simp only [Lifecycle.step] at h
    split_ifs at h
    cases h
    exact .inl rfl
  | startRenewal user sub product =>
    obtain ⟨row, -, h⟩ := Option.bind_eq_some_iff.mp h
    split_ifs at h
    cases h
    exact .inl rfl
  | claim | collect =>
    simp only [Lifecycle.step] at h
    split at h
    · cases h
      exact .inl rfl
    · cases h
  | read =>
    simp only [Lifecycle.step] at h
    split at h
    · obtain ⟨job, -, rfl⟩ := Option.map_eq_some_iff.mp h
      exact .inl rfl
    · cases h
  | call reply =>
    simp only [Lifecycle.step] at h
    split at h
    · split at h
      · cases h
        exact .inl rfl
      · cases h
        exact .inl rfl
    · cases h

theorem background_desk {a : Lifecycle.Step} {v : Lifecycle.State}
    (h : Lifecycle.step settings.toSettings s.system a = some v) :
    ∃ bs, Machine.run (Support.step settings.isAdmin) s.support bs = some (s.withSystem v).support ∧
      ∀ b ∈ bs, MayWrite settings s (.system a) b := by
  rcases now_step h with hnow | ⟨d, rfl, hnow⟩
  · have hsame : (s.withSystem v).support = s.support := congrArg (Support.State.mk · _ _) hnow
    exact ⟨[], congrArg some hsame.symm, by simp⟩
  · have hsame : (s.withSystem v).support = { s.support with now := s.support.now + d } :=
      congrArg (Support.State.mk · _ _) hnow
    refine ⟨[.tick d], ?_, fun b hb => ?_⟩
    · rw [hsame]
      rfl
    · rw [List.mem_singleton.mp hb]
      exact rfl

/-- All these conversations are left. -/
theorem leave_all (isAdmin : TelegramId → Bool) (ks : List Conversation) (v : Support.State) :
    Machine.run (Support.step isAdmin) v (ks.map .leave) =
      some { v with expects := fun k => if k ∈ ks then .nothing else v.expects k } := by
  induction ks generalizing v with
  | nil => simp
  | cons k ks ih =>
    rw [List.map_cons, Machine.run_cons, Support.step, Option.bind_some, ih]
    refine congrArg some (congrArg (Support.State.mk v.now v.db) ?_)
    funext j
    by_cases hj : j = k
    · simp [hj, Support.State.expect]
    · simp [hj, Support.State.expect]

/-- The bot remembers few conversations. -/
def Few (s : State) : Prop := ∃ ks : List Conversation, ∀ k ∉ ks, s.chats k = .cleared

theorem few_update (hs : Few s) (h : Handled settings s u draw t) : Few t := by
  cases h with
  | untaken => exact hs
  | stopped => exact hs
  | through =>
    obtain ⟨ks, hks⟩ := hs
    refine ⟨u.conversation :: ks, fun k hk => ?_⟩
    obtain ⟨hne, hk⟩ := not_or.mp (mt List.mem_cons.mpr hk)
    exact (Function.update_of_ne hne ..).trans (hks k hk)

theorem few_step {x : Step} (hs : Few s) (h : step settings s x = some t) : Few t := by
  cases stepped h with
  | updated hfits hhandled => exact few_update hs hhandled
  | restarted configured => exact ⟨[], fun _ _ => rfl⟩
  | ran hbackground hran => exact hs

/-- The bot starts again, and every conversation it remembers is left. -/
theorem restart_desk (hs : Few s) (configured : List Configured) :
    ∃ bs, Machine.run (Support.step settings.isAdmin) s.support bs =
        some (State.support { s with db := initData s.db configured, chats := fun _ => .cleared }) ∧
      ∀ b ∈ bs, MayWrite settings s (.restart configured) b := by
  obtain ⟨ks, hks⟩ := hs
  refine ⟨ks.map .leave, ?_, fun b hb => ?_⟩
  · rw [leave_all]
    refine congrArg some (congrArg (Support.State.mk s.now s.db.support) ?_)
    funext k
    split_ifs with hk
    · rfl
    · exact congrArg Chat.expects (hks k hk)
  · obtain ⟨k, -, rfl⟩ := List.mem_map.mp hb
    trivial

theorem step_desk {x : Step} (hs : Few s) (h : step settings s x = some t) :
    ∃ bs, Machine.run (Support.step settings.isAdmin) s.support bs = some t.support ∧
    ∀ b ∈ bs, MayWrite settings s x b := by
  cases stepped h with
  | updated hfits hhandled => exact update_desk hhandled
  | restarted configured => exact restart_desk hs configured
  | ran hbackground hran => exact background_desk hran

/-! ### Runs -/

/-- Every run of the bot is a run of the support desk that starts without tickets. A step of the desk belongs to a step
of the bot, is made in the conversation of the update that brought it, for the row of its sender, and answers and closes
a ticket only where that sender is an admin. -/
theorem run_desk {servers : Table ServerRow} {products : Table ProductRow} {now : ℤ} {as : List Step}
    (h : Machine.run (step settings) (start servers products now) as = some t) :
    ∃ blocks : List (List Support.Step), blocks.length = as.length ∧
      Machine.run (Support.step settings.isAdmin) { Support.start with now := now } blocks.flatten = some t.support ∧
      ∀ (i : ℕ) (s : State) (x : Step), Machine.run (step settings) (start servers products now) (as.take i) = some s →
        as[i]? = some x → ∀ b ∈ blocks[i]?.getD [], MayWrite settings s x b := by
  have hmatch : ∀ s x t v, Few s → step settings s x = some t → v = t.support →
      ∃ v' bs, v' = s.support ∧ Machine.run (Support.step settings.isAdmin) v' bs = some v ∧
        ∀ b ∈ bs, MayWrite settings s x b := by
    rintro s x t v hs hstep rfl
    obtain ⟨bs, hrun, hmay⟩ := step_desk hs hstep
    exact ⟨s.support, bs, rfl, hrun, hmay⟩
  obtain ⟨v, blocks, rfl, hlength, hrun, hall⟩ := Machine.matched_run (I := Few) (R := fun s v => v = s.support)
    (P := MayWrite settings) (fun s x t => few_step) hmatch ⟨[], fun _ _ => rfl⟩ h rfl
  exact ⟨blocks, hlength, hrun, hall⟩

section Small

/-- A customer asks, somebody else tries to close the ticket, an admin answers and closes it,
and the bot starts again. -/
def smallTicket : List Step :=
  [press 1000 "menu_support".toList, sent 1000 (Support.textMessage "It does not connect."),
    press 2000 ("adm_cls_tck_".toList ++ (smallNames 0).text), press 9 ("adm_rep_tck_".toList ++ (smallNames 0).text),
    sent 9 (Support.textMessage "Try the other server."), press 9 ("adm_cls_tck_".toList ++ (smallNames 0).text),
    .system (.tick 5), .restart []]

example : ((Machine.run (step smallSettings) smallStart smallTicket).map fun s => s.db.support.tickets.map (·.status)) =
    some [.closed] := by decide +kernel

theorem run_desk_small : ∃ t, Machine.run (step smallSettings) smallStart smallTicket = some t ∧
    ∃ blocks : List (List Support.Step), blocks.length = 8 ∧
      Machine.run (Support.step smallSettings.isAdmin) { Support.start with now := 0 } blocks.flatten =
        some t.support ∧
      ∀ (i : ℕ) (s : State) (x : Step), Machine.run (step smallSettings) smallStart (smallTicket.take i) = some s →
        smallTicket[i]? = some x → ∀ b ∈ blocks[i]?.getD [], MayWrite smallSettings s x b := by
  have hsome : (Machine.run (step smallSettings) smallStart smallTicket).isSome = true := by decide +kernel
  obtain ⟨t, ht⟩ := Option.isSome_iff_exists.mp hsome
  obtain ⟨blocks, hlength, hrun, hall⟩ := run_desk ht
  exact ⟨t, ht, blocks, hlength, hrun, hall⟩

end Small

end AmneziaVpnBot.Bot
