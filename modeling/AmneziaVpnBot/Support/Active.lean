import AmneziaVpnBot.Support.Tickets

/-! The active ticket of a user. A customer's message goes to the ticket that is active, or
opens one, and a closed ticket has the time it was closed. Both hold as long as no admin's
reply reaches a ticket that is closed by then: it opens the ticket again, leaves `closed_at`
set, and may be the second active one. -/

namespace AmneziaVpnBot.Support

/-- An admin's reply is about to be added to a ticket that is closed. -/
def repliesToClosed (isAdmin : TelegramId → Bool) (s : State) : Step → Bool
  | .ticketReply c _ => match s.expects c with
    | .replyTo id => isAdmin c.2 && s.db.tickets[id]?.any fun ticket => ticket.status = .closed
    | _ => false
  | _ => false

structure Unlocked (tickets : Table SupportTicket) : Prop where
  one : ∀ user, (activeTickets tickets user).length ≤ 1
  answered : ∀ user, ∃ id, getActiveTicketForUser tickets user = .ok id
  closed : tickets.All fun _ ticket => ticket.status = .closed ↔ ticket.closedAt.isSome

/-- As `Unlocked`, row by row. -/
structure Orderly (tickets : Table SupportTicket) : Prop where
  one : ∀ (i j : TicketId) (a b : SupportTicket), tickets[i]? = some a → tickets[j]? = some b → a.active → b.active →
    a.userId = b.userId → i = j
  closed : tickets.All fun _ ticket => ticket.status = .closed ↔ ticket.closedAt.isSome

variable {tickets : Table SupportTicket} {isAdmin : TelegramId → Bool} {s t : State}

theorem SupportTicket.active_iff {ticket : SupportTicket} : ticket.active = true ↔ ticket.status ≠ .closed := by
  unfold SupportTicket.active
  cases ticket.status <;> simp

theorem mem_activeTickets {user : UserId} {id : TicketId} :
    id ∈ activeTickets tickets user ↔
      ∃ ticket : SupportTicket, tickets[id]? = some ticket ∧ ticket.userId = user ∧ ticket.active := by
  simp [activeTickets, Table.mem_select]

theorem getActiveTicketForUser_ok {user : UserId} (h : (activeTickets tickets user).length ≤ 1) :
    getActiveTicketForUser tickets user = .ok (activeTickets tickets user).head? := by
  unfold getActiveTicketForUser
  match activeTickets tickets user, h with
  | [], _ => rfl
  | [_], _ => rfl

theorem getActiveTicketForUser_eq {user : UserId} {id : TicketId}
    (h : getActiveTicketForUser tickets user = .ok (some id)) :
    ∃ ticket : SupportTicket, tickets[id]? = some ticket ∧ ticket.userId = user ∧ ticket.active := by
  rw [← mem_activeTickets]
  unfold getActiveTicketForUser at h
  split at h
  · cases h
  next i hi =>
    cases h
    simp [hi]
  · cases h

theorem getActiveTicketForUser_none {user : UserId} (h : getActiveTicketForUser tickets user = .ok none) :
    activeTickets tickets user = [] := by
  unfold getActiveTicketForUser at h
  split at h
  · assumption
  · cases h
  · cases h

theorem Orderly.unlocked (h : Orderly tickets) : Unlocked tickets := by
  have hone : ∀ user, (activeTickets tickets user).length ≤ 1 := by
    intro user
    refine Table.select_length_le_one fun i hi j hj => ?_
    obtain ⟨a, ha, hua, hactive⟩ := mem_activeTickets.mp hi
    obtain ⟨b, hb, hub, hactive'⟩ := mem_activeTickets.mp hj
    exact h.one i j a b ha hb hactive hactive' (hua.trans hub.symm)
  exact ⟨hone, fun user => ⟨_, getActiveTicketForUser_ok (hone user)⟩, h.closed⟩

/-! ### Changes of one ticket -/

/-- A ticket changes that stays active for its user, or was so before. -/
theorem Orderly.update (h : Orderly tickets) {id : TicketId} {f : SupportTicket → SupportTicket}
    (hf : ∀ ticket, tickets[id]? = some ticket → (f ticket).userId = ticket.userId ∧
      ((f ticket).active → ticket.active) ∧ ((f ticket).status = .closed ↔ (f ticket).closedAt.isSome)) :
    Orderly (tickets.update id f) := by
  have hold : ∀ {i : TicketId} {a' : SupportTicket}, (tickets.update id f)[i]? = some a' → ∃ a, tickets[i]? = some a ∧
      a'.userId = a.userId ∧ (a'.active → a.active) := by
    intro i a' ha'
    rw [Table.get_update] at ha'
    split_ifs at ha' with hi
    · subst hi
      obtain ⟨a, ha, rfl⟩ := Option.map_eq_some_iff.mp ha'
      exact ⟨a, ha, (hf a ha).1, (hf a ha).2.1⟩
    · exact ⟨a', ha', rfl, fun h => h⟩
  refine ⟨fun i j a' b' hi hj hactive hactive' huser => ?_,
    h.closed.update fun ticket hticket _ => (hf ticket hticket).2.2⟩
  obtain ⟨a, ha, hua, haa⟩ := hold hi
  obtain ⟨b, hb, hub, hba⟩ := hold hj
  exact h.one i j a b ha hb (haa hactive) (hba hactive') (by rw [← hua, huser, hub])

theorem Orderly.insert (h : Orderly tickets) {ticket : SupportTicket} (hnone : activeTickets tickets ticket.userId = [])
    (hclosed : ticket.status = .closed ↔ ticket.closedAt.isSome) : Orderly (tickets.insert ticket) := by
  have hfree : ∀ (i : TicketId) (a : SupportTicket), tickets[i]? = some a → a.active → a.userId ≠ ticket.userId := by
    intro i a ha hactive huser
    have hmem : i ∈ activeTickets tickets ticket.userId := mem_activeTickets.mpr ⟨a, ha, huser, hactive⟩
    rw [hnone] at hmem
    cases hmem
  refine ⟨fun i j a b hi hj hactive hactive' huser => ?_, h.closed.insert hclosed⟩
  rw [Table.get_insert] at hi hj
  split_ifs at hi hj with hin hjn hjn
  · rw [hin, hjn]
  · cases hi
    exact absurd huser.symm (hfree j b hj hactive')
  · cases hj
    exact absurd huser (hfree i a hi hactive)
  · exact h.one i j a b hi hj hactive hactive' huser

/-- A message to an active ticket. -/
theorem Orderly.addMessage {db : Database} (h : Orderly db.tickets) (message : SupportMessage)
    (hopen : ∀ ticket, db.tickets[message.ticketId]? = some ticket → ticket.status ≠ .closed) :
    Orderly (addMessage db message).tickets := by
  refine h.update fun ticket hticket => ?_
  have hstatus := hopen ticket hticket
  have hwaits : message.senderType.waits ≠ .closed := by cases message.senderType <;> simp [SenderType.waits]
  have hclosed := h.closed _ _ hticket
  exact ⟨rfl, fun _ => SupportTicket.active_iff.mpr hstatus, by simpa [hwaits, hstatus] using hclosed⟩

theorem Orderly.closeTicket {db : Database} (h : Orderly db.tickets) (id : TicketId) (now : ℤ) :
    Orderly (closeTicket db id now).tickets := by
  refine h.update fun ticket _ => ?_
  simp [SupportTicket.close, SupportTicket.active]

theorem Orderly.handleSupportMessage (h : Orderly s.db.tickets) (c : Conversation) (user : UserId) (code : String)
    (message : Incoming) : Orderly (handleSupportMessage s c user code message).db.tickets := by
  unfold Support.handleSupportMessage
  split
  · exact h
  next id hactive =>
    obtain ⟨ticket, hticket, -, ha⟩ := getActiveTicketForUser_eq hactive
    refine h.addMessage _ fun ticket' hticket' => ?_
    cases hticket.symm.trans hticket'
    exact SupportTicket.active_iff.mp ha
  next hnone =>
    dsimp only
    split
    next db hdb =>
      unfold createTicket at hdb
      split at hdb
      · cases hdb
      · cases hdb
        exact h.insert (getActiveTicketForUser_none hnone) (by simp)
    · exact h

/-! ### Steps and runs -/

theorem orderly_step {a : Step} (h : Orderly s.db.tickets) (hguard : repliesToClosed isAdmin s a = false)
    (hstep : step isAdmin s a = some t) : Orderly t.db.tickets := by
  cases a with
  | support c => cases hstep; exact h
  | supportMessage c user code message =>
    simp only [step] at hstep
    split at hstep <;> cases hstep
    exact h.handleSupportMessage c user code message
  | replyTicket c id =>
    simp only [step] at hstep
    split_ifs at hstep <;> cases hstep <;> exact h
  | ticketReply c message =>
    simp only [step] at hstep
    split at hstep
    next id hexpects =>
      split_ifs at hstep with hadmin <;> cases hstep
      · unfold handleAdminTicketReply
        split
        · exact h
        next ticket hticket =>
          refine h.addMessage _ fun ticket' hticket' => ?_
          simpa [repliesToClosed, hexpects, hadmin, show s.db.tickets[id]? = some ticket' from hticket'] using hguard
      · exact h
    · cases hstep
  | closeTicket c id =>
    simp only [step] at hstep
    split_ifs at hstep <;> cases hstep
    · exact h.closeTicket id s.now
    · exact h
  | leave c => cases hstep; exact h
  | tick d => cases hstep; exact h

/-- A reply to a closed ticket leaves one that is not closed, with `closed_at` set. -/
theorem breaks_of_repliesToClosed {a : Step} (h : Unlocked s.db.tickets) (hbad : repliesToClosed isAdmin s a = true)
    (hstep : step isAdmin s a = some t) : ¬ Unlocked t.db.tickets := by
  intro hafter
  unfold repliesToClosed at hbad
  split at hbad
  next c message =>
    split at hbad
    next id hexpects =>
      simp only [Bool.and_eq_true, Option.any_eq_true, decide_eq_true_eq] at hbad
      obtain ⟨hadmin, ticket, hticket, hclosed⟩ := hbad
      simp only [step, hexpects, hadmin, ↓reduceIte, handleAdminTicketReply, hticket, Option.some.injEq] at hstep
      subst hstep
      have hget : ∀ message : SupportMessage, message.ticketId = id → message.senderType = .admin →
          (addMessage s.db message).tickets[id]? = some { ticket with status := .waitingForCustomer } := by
        rintro message rfl hsender
        simp [addMessage, Table.get_update_self, hticket, hsender, SenderType.waits]
      have hrow := hafter.closed id _ (hget _ rfl rfl)
      have hset := (h.closed id ticket hticket).mp hclosed
      simp [hset] at hrow
    · cases hbad
  · cases hbad

/-- In every state of a run each user has at most one active ticket, looking it up does not
raise, and the closed tickets are those with `closed_at` set, if and only if no reply of the
run is added to a ticket that is closed by then. -/
theorem unlocked_run {as : List Step} {s : State} (hrun : Machine.run (step isAdmin) start as = some s) :
    (∀ (bs cs : List Step) (t : State), as = bs ++ cs → Machine.run (step isAdmin) start bs = some t →
      Unlocked t.db.tickets) ↔
    Machine.Along (step isAdmin) (fun s a => repliesToClosed isAdmin s a = false) start as := by
  constructor
  · intro hall
    refine Machine.along_iff.mpr fun bs cs a t hsplit ht => ?_
    rw [Bool.eq_false_iff]
    intro hbad
    rw [hsplit, Machine.run_append, ht] at hrun
    obtain ⟨u, hstep, -⟩ := Machine.run_cons_eq_some.mp hrun
    refine breaks_of_repliesToClosed (hall bs (a :: cs) t hsplit ht) hbad hstep ?_
    refine hall (bs ++ [a]) cs u (by simp [hsplit]) ?_
    simp [Machine.run_append, ht, hstep]
  · rintro hguard bs cs t rfl ht
    have hstart : Orderly start.db.tickets := ⟨by simp [start], by simp [start, Table.All]⟩
    have hinv : Orderly t.db.tickets :=
      Machine.invariant_along (I := fun s => Orderly s.db.tickets) (fun _ _ _ h hg ht => orderly_step h hg ht)
        ((Machine.along_append ht).mp hguard).1 ht hstart
    exact hinv.unlocked

/-- A text message. -/
def textMessage (text : String) : Incoming := ⟨some text, none, [], none, 1⟩

/-- A customer asks, an admin answers and closes the ticket. -/
def answered : List Step :=
  [.support (1, 1), .supportMessage (1, 1) 0 "TCK-00001" (textMessage "It does not connect."),
    .replyTicket (9, 9) 0, .ticketReply (9, 9) (textMessage "Try the other server."), .closeTicket (9, 9) 0]

theorem unlocked_run_answered : ∃ s, Machine.run (step (· = 9)) start answered = some s ∧ Unlocked s.db.tickets := by
  obtain ⟨s, hs⟩ : ∃ s, Machine.run (step (· = 9)) start answered = some s := ⟨_, rfl⟩
  exact ⟨s, hs, (unlocked_run hs).mpr (by decide +kernel) answered [] s (by simp) hs⟩

/-- Reply is pressed, the ticket is closed, the customer opens a new one, and then the reply
is sent. -/
def lateReply : List Step :=
  [.support (1, 1), .supportMessage (1, 1) 0 "TCK-00001" (textMessage "It does not connect."),
    .replyTicket (9, 9) 0, .closeTicket (9, 9) 0, .support (1, 1),
    .supportMessage (1, 1) 0 "TCK-00002" (textMessage "It still does not connect."),
    .ticketReply (9, 9) (textMessage "Try the other server.")]

/-- Both tickets are active, and looking for the customer's active ticket raises. -/
theorem not_unlocked_lateReply : ∃ s, Machine.run (step (· = 9)) start lateReply = some s ∧
    activeTickets s.db.tickets 0 = [0, 1] ∧ getActiveTicketForUser s.db.tickets 0 = .error .mk ∧
    ¬ Unlocked s.db.tickets := by
  have hrun : (Machine.run (step (· = 9)) start lateReply).any
    (fun s => activeTickets s.db.tickets 0 = [0, 1]) = true := by
    decide +kernel
  obtain ⟨s, hs, hactive⟩ := Machine.exists_of_any hrun
  have hactive : activeTickets s.db.tickets 0 = [0, 1] := by simpa using hactive
  refine ⟨s, hs, hactive, by simp [getActiveTicketForUser, hactive], fun h => ?_⟩
  have hone := h.one 0
  simp [hactive] at hone

end AmneziaVpnBot.Support
