import AmneziaVpnBot.Lib.Machine
import Mathlib.Data.List.Infix

/-! A stream read in pieces. The reader looks at what it has got and asks for a number of units more, or
has enough; it is given a piece that is not empty and no longer than that, and the end of the stream as an
empty piece. The pieces are chosen from outside, and the reader ends with some of what was sent whatever
they are. -/

structure Reading (β : Type*) where
  got : List β
  /-- What is still to come. -/
  rest : List β
  /-- The empty piece has come. -/
  ended : Bool
  deriving DecidableEq

namespace Reading

variable {β : Type*}

def start (sent : List β) : Reading β := ⟨[], sent, false⟩

/-- How much is asked for next, if anything is. -/
def asked (asks : List β → Option ℕ) (r : Reading β) : Option ℕ := if r.ended then none else asks r.got

/-- A piece that may come when `n` units are asked for. -/
def Gives (n : ℕ) (rest piece : List β) : Prop := piece.length ≤ n ∧ piece <+: rest ∧ (piece = [] → rest = [])

instance [DecidableEq β] (n : ℕ) (rest piece : List β) : Decidable (Gives n rest piece) :=
  inferInstanceAs (Decidable (_ ∧ _ ∧ _))

/-- One piece is read. -/
def recv [DecidableEq β] (asks : List β → Option ℕ) (r : Reading β) (piece : List β) : Option (Reading β) :=
  (r.asked asks).bind fun n =>
    if Gives n r.rest piece then some ⟨r.got ++ piece, r.rest.drop piece.length, piece.isEmpty⟩ else none

variable {asks : List β → Option ℕ}

theorem asked_eq_some {r : Reading β} {n : ℕ} : r.asked asks = some n ↔ r.ended = false ∧ asks r.got = some n := by
  cases h : r.ended <;> simp [asked, h]

theorem asked_eq_none {r : Reading β} : r.asked asks = none ↔ r.ended = true ∨ asks r.got = none := by
  cases h : r.ended <;> simp [asked, h]

/-- What is left to do: the units to come, and the end. -/
def left (r : Reading β) : ℕ := if r.ended then 0 else r.rest.length + 1

variable [DecidableEq β]

theorem recv_eq_some {r t : Reading β} {piece : List β} :
    r.recv asks piece = some t ↔
      r.ended = false ∧ (∃ n, asks r.got = some n ∧ piece.length ≤ n) ∧
        ∃ rest, r.rest = piece ++ rest ∧ (piece = [] → rest = []) ∧ t = ⟨r.got ++ piece, rest, piece.isEmpty⟩ := by
  constructor
  · intro h
    obtain ⟨n, hn, h⟩ := Option.bind_eq_some_iff.mp h
    obtain ⟨hended, hasks⟩ := asked_eq_some.mp hn
    split at h
    · rename_i hgives
      obtain ⟨hle, ⟨rest, hrest⟩, hempty⟩ := hgives
      refine ⟨hended, ⟨n, hasks, hle⟩, rest, hrest.symm, ?_, ?_⟩
      · rintro rfl
        exact hrest.trans (hempty rfl)
      · rw [← hrest, List.drop_left] at h
        exact (Option.some.inj h).symm
    · cases h
  · rintro ⟨hended, ⟨n, hasks, hle⟩, rest, hrest, hempty, rfl⟩
    have hgives : Gives n r.rest piece := by
      refine ⟨hle, ⟨rest, hrest.symm⟩, fun hpiece => ?_⟩
      rw [hrest, hpiece, hempty hpiece]
      rfl
    rw [recv, asked_eq_some.mpr ⟨hended, hasks⟩, Option.bind_some, if_pos hgives, hrest, List.drop_left]

/-- Whoever asks for something is given a piece. -/
theorem exists_recv {r : Reading β} {n : ℕ} (hn : r.asked asks = some n) (hpos : 0 < n) :
    ∃ piece t, r.recv asks piece = some t := by
  obtain ⟨hended, hasks⟩ := asked_eq_some.mp hn
  refine ⟨r.rest.take n, _, recv_eq_some.mpr ⟨hended, ⟨n, hasks, List.length_take_le _ _⟩, r.rest.drop n, ?_, ?_, rfl⟩⟩
  · exact (List.take_append_drop n r.rest).symm
  · intro hempty
    rcases List.take_eq_nil_iff.mp hempty with h | h
    · omega
    · rw [h, List.drop_nil]

theorem recv_got {r t : Reading β} {piece : List β} (h : r.recv asks piece = some t) :
    t.got ++ t.rest = r.got ++ r.rest := by
  obtain ⟨-, -, rest, hrest, -, rfl⟩ := recv_eq_some.mp h
  rw [hrest, List.append_assoc]

theorem recv_left {r t : Reading β} {piece : List β} (h : r.recv asks piece = some t) : t.left < r.left := by
  obtain ⟨hended, -, rest, hrest, -, rfl⟩ := recv_eq_some.mp h
  cases piece with
  | nil => simp [left, hended]
  | cons b piece =>
    simp only [left, hended, hrest, List.isEmpty_cons, List.length_append, List.length_cons, Bool.false_eq_true,
      if_false]
    omega

/-- Nothing is lost and nothing is added, and the end comes last. -/
theorem run_got {sent : List β} {pieces : List (List β)} {r : Reading β}
    (h : Machine.run (recv asks) (start sent) pieces = some r) :
    r.got ++ r.rest = sent ∧ (r.ended = true → r.rest = []) := by
  refine Machine.invariant_run (I := fun r => r.got ++ r.rest = sent ∧ (r.ended = true → r.rest = [])) ?_ h ?_
  · intro r piece t hr ht
    refine ⟨(recv_got ht).trans hr.1, ?_⟩
    obtain ⟨-, -, rest, -, hempty, rfl⟩ := recv_eq_some.mp ht
    exact fun h => hempty (List.isEmpty_iff.mp h)
  · exact ⟨rfl, fun h => absurd h Bool.false_ne_true⟩

/-- Every reading comes to an end. -/
theorem run_length {pieces : List (List β)} {r t : Reading β} (h : Machine.run (recv asks) r pieces = some t) :
    pieces.length + t.left ≤ r.left := by
  induction pieces generalizing r with
  | nil =>
    cases h
    simp
  | cons piece pieces ih =>
    obtain ⟨u, hu, h⟩ := Machine.run_cons_eq_some.mp h
    have hleft := recv_left hu
    have hrun := ih h
    rw [List.length_cons]
    omega

end Reading
