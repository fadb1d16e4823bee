import AmneziaVpnBot.Bot.Writes
import AmneziaVpnBot.Lifecycle.Extend

/-! What every run of the bot keeps: each user has one row, nothing a row refers to is missing, and the order that a
conversation remembers is one of the user who is in it. -/

namespace AmneziaVpnBot.Bot

open AmneziaVpnBot.Database (Grows Known)

variable {settings : BotSettings} {s t : State} {u : Update} {draw : Draw} {db db' : Database}

/-! ### Accounts -/

/-- Each account has one row. -/
def Distinct (users : Table UserRow) : Prop := ((users.map UserRow.toUser).map User.telegramUserId).Nodup

theorem Distinct.eq {users : Table UserRow} (h : Distinct users) {i j : UserId} {a b : User}
    (hi : (users.map UserRow.toUser)[i]? = some a) (hj : (users.map UserRow.toUser)[j]? = some b)
    (heq : a.telegramUserId = b.telegramUserId) : i = j := by
  have hlt := (List.getElem?_eq_some_iff.mp hi).1
  apply (List.getElem?_inj (by simpa using hlt) h).mp
  rw [List.getElem?_map, hi, List.getElem?_map, hj, Option.map_some, Option.map_some, heq]

theorem toUser_rename (sender : Sender) (row : UserRow) : (row.rename sender).toUser = row.toUser := rfl

/-- The sender has a row then, and no row becomes another user's. -/
theorem upsertUser_spec (users : Table UserRow) (sender : Sender) :
    (∃ row, (upsertUser users sender).1[(upsertUser users sender).2]? = some row ∧ row.telegramUserId = sender.id) ∧
      users.map UserRow.toUser <+: (upsertUser users sender).1.map UserRow.toUser ∧
      (Distinct users → Distinct (upsertUser users sender).1) := by
  unfold upsertUser
  cases hrow : getByTelegramId users sender.id with
  | some found =>
    obtain ⟨i, row⟩ := found
    obtain ⟨hi, hid⟩ := rowWhere_eq_some hrow
    have hsame : (users.update i (UserRow.rename sender)).map UserRow.toUser = users.map UserRow.toUser :=
      map_update (toUser_rename sender) users i
    refine ⟨⟨row.rename sender, ?_, ?_⟩, hsame ▸ List.prefix_rfl, fun h => ?_⟩
    · rw [Table.get_update_self, hi]
      rfl
    · rw [toUser_rename]
      exact of_decide_eq_true hid
    · rw [Distinct, hsame]
      exact h
  | none =>
    refine ⟨⟨sender.newRow, ?_, rfl⟩, ?_, fun h => ?_⟩
    · rw [Table.get_insert, if_pos rfl]
    · rw [map_insert]
      exact List.prefix_append ..
    · rw [Distinct, map_insert, List.map_append, List.nodup_append]
      refine ⟨h, List.nodup_singleton _, fun a ha b hb => ?_⟩
      obtain ⟨user, huser, rfl⟩ := List.mem_map.mp ha
      obtain ⟨row, hmem, rfl⟩ := List.mem_map.mp huser
      obtain rfl := List.mem_singleton.mp hb
      exact of_decide_eq_false (rowWhere_eq_none hrow row hmem)

theorem conversation_snd (u : Update) : u.conversation.2 = u.sender.id := by
  unfold Update.conversation
  split
  · rfl
  · rfl

theorem core_sender (s : State) (u : Update) :
    ∃ user, (s.entered u).core.users[s.sender u]? = some user ∧ user.telegramUserId = u.sender.id := by
  obtain ⟨row, hrow, hid⟩ := (upsertUser_spec s.db.users u.sender).1
  refine ⟨row.toUser, ?_, hid⟩
  rw [Database.core, List.getElem?_map]
  exact congrArg (Option.map UserRow.toUser) hrow

/-! ### Updates -/

/-- The sender is not blocked. -/
def State.Welcome (s : State) (u : Update) : Prop :=
  ((s.entered u).users[s.sender u]?).any UserRow.isBlocked = false

/-- The three ends of an update: nobody takes it, the middleware or the handler stops it,
or the handler gets through. -/
inductive Handled (settings : BotSettings) (s : State) (u : Update) (draw : Draw) : State → Prop
  | untaken : Handled settings s u draw s
  | stopped : Handled settings s u draw { s with db := s.entered u }
  | through {db : Database} {chat : Chat} (hwelcome : s.Welcome u)
      (hwrote : Wrote (s.context settings u draw) u.content.incoming (s.entered u) db chat) :
      Handled settings s u draw { s with db := db, chats := Function.update s.chats u.conversation chat }

theorem handled (settings : BotSettings) (s : State) (u : Update) (draw : Draw) :
    Handled settings s u draw (handleUpdate settings s u draw) := by
  unfold handleUpdate
  split
  · exact .untaken
  next handler hroute =>
    split_ifs with hblocked
    · exact .stopped
    · split
      next db chat hresult =>
        exact .through (Bool.eq_false_iff.mpr hblocked) (wrote_route (c := s.context settings u draw) hroute hresult)
      next => exact .stopped

/-! ### Steps -/

/-- What a step of the bot can do. -/
inductive Stepped (settings : BotSettings) (s : State) : Step → State → Prop
  | updated {u : Update} {draw : Draw} {t : State} (hfits : draw.fits s.db.jobs = true)
      (hhandled : Handled settings s u draw t) : Stepped settings s (.update u draw) t
  | restarted (configured : List Configured) :
      Stepped settings s (.restart configured) { s with db := initData s.db configured, chats := fun _ => .cleared }
  | ran {a : Lifecycle.Step} {v : Lifecycle.State} (hbackground : isBackground a = true)
      (hran : Lifecycle.step settings.toSettings s.system a = some v) : Stepped settings s (.system a) (s.withSystem v)

theorem stepped {x : Step} (h : step settings s x = some t) : Stepped settings s x t := by
  cases x with
  | update u draw =>
    simp only [step] at h
    split_ifs at h with hfits
    cases h
    exact .updated hfits (handled settings s u draw)
  | restart configured =>
    cases h
    exact .restarted configured
  | system a =>
    simp only [step] at h
    split_ifs at h with hbackground
    obtain ⟨v, hran, rfl⟩ := Option.map_eq_some_iff.mp h
    exact .ran hbackground hran

end AmneziaVpnBot.Bot
