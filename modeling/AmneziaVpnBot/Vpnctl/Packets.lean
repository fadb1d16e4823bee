import AmneziaVpnBot.Lib.Reading
import AmneziaVpnBot.Vpnctl.Serve

/-! The packets of a request. On a socket `read_request` receives until it has a newline, more than it
takes, or the end; from standard input it reads in one go. A request of one line comes out the same,
however it was cut. -/

namespace AmneziaVpnBot.Vpnctl

/-- The argument of the next `recv`, if `read_request` calls it with these bytes in hand. -/
def asks (raw : List UInt8) : Option ℕ :=
  if newline ∈ raw ∨ maxRequestBytes < raw.length then none else some (maxRequestBytes + 1 - raw.length)

theorem asks_eq_none {raw : List UInt8} : asks raw = none ↔ newline ∈ raw ∨ maxRequestBytes < raw.length := by
  rw [asks, ite_eq_left_iff, or_iff_not_imp_left]
  simp

theorem asks_eq_some {raw : List UInt8} {n : ℕ} :
    asks raw = some n ↔ (newline ∉ raw ∧ raw.length ≤ maxRequestBytes) ∧ n = maxRequestBytes + 1 - raw.length := by
  simp [asks, eq_comm]

theorem asks_pos {raw : List UInt8} {n : ℕ} (h : asks raw = some n) : 0 < n := by
  obtain ⟨⟨-, hlen⟩, rfl⟩ := asks_eq_some.mp h
  omega

/-- One line, with or without its newline, and nothing after it. -/
def OneLine (bytes : List UInt8) : Prop := ∃ line, newline ∉ line ∧ (bytes = line ∨ bytes = line ++ [newline])

/-- What has come of a line is all of it once there is a newline. -/
theorem OneLine.eq_of_mem {raw rest : List UInt8} (h : OneLine (raw ++ rest)) (hraw : newline ∈ raw) : rest = [] := by
  obtain ⟨line, hline, heq | heq⟩ := h
  · rw [← heq] at hline
    exact absurd (List.mem_append_left _ hraw) hline
  · rcases List.eq_nil_or_concat rest with hrest | ⟨front, last, hrest⟩
    · exact hrest
    · rw [hrest, List.concat_eq_append, ← List.append_assoc] at heq
      have hfront := (List.append_inj' heq rfl).1
      rw [← hfront] at hline
      exact absurd (List.mem_append_left _ hraw) hline

/-! ### The loop -/

/-- The loop, where the socket gives it what it asks for. -/
theorem recvLoop_of_run {pieces : List (List UInt8)} {r t : Reading UInt8} (hr : r.ended = false)
    (h : Machine.run (Reading.recv asks) r pieces = some t) (ht : t.asked asks = none) :
    recvLoop .closed r.got pieces = some t.got := by
  induction pieces generalizing r with
  | nil =>
    cases h
    rw [recvLoop, if_pos (.inr (.inr rfl))]
  | cons piece pieces ih =>
    obtain ⟨u, hu, h⟩ := Machine.run_cons_eq_some.mp h
    obtain ⟨-, ⟨n, hn, hle⟩, rest, -, -, rfl⟩ := Reading.recv_eq_some.mp hu
    obtain ⟨hgo, rfl⟩ := asks_eq_some.mp hn
    rw [recvLoop, if_neg (not_or.mpr ⟨hgo.1, Nat.not_lt.mpr hgo.2⟩), List.take_of_length_le hle]
    cases hpiece : piece.isEmpty with
    | false => exact ih hpiece h
    | true =>
      -- the end came, and nothing is read after it
      cases pieces with
      | nil =>
        cases h
        rw [recvLoop, if_pos (.inr (.inr rfl))]
      | cons piece' pieces =>
        obtain ⟨v, hv, -⟩ := Machine.run_cons_eq_some.mp h
        have hended := (Reading.recv_eq_some.mp hv).1
        rw [hpiece] at hended
        cases hended

/-- An empty piece adds nothing. -/
theorem recvLoop_filter {pieces : List (List UInt8)} (raw : List UInt8) :
    recvLoop .closed raw (pieces.filter (· ≠ [])) = recvLoop .closed raw pieces := by
  induction pieces generalizing raw with
  | nil => rfl
  | cons piece pieces ih =>
    by_cases hpiece : piece = []
    · rw [List.filter_cons_of_neg (by simpa using hpiece), ih, recvLoop.eq_2, hpiece, List.take_nil, List.append_nil]
      split
      · rename_i hstop
        exact recvLoop_stop hstop pieces
      · rfl
    · rw [List.filter_cons_of_pos (by simpa using hpiece), recvLoop.eq_2, recvLoop.eq_2, ih]

/-- A socket that gave these pieces, of which the last may be the end. -/
def Socket.gave (pieces : List (List UInt8)) : Socket where
  chunks := pieces.filter (· ≠ [])
  ending := .closed
  nonempty chunk h := by simpa using (List.mem_filter.mp h).2

/-- The loop ends with more than it takes, or with the whole line. -/
theorem got_of_run {bytes : List UInt8} (hline : OneLine bytes) {pieces : List (List UInt8)} {r : Reading UInt8}
    (h : Machine.run (Reading.recv asks) (.start bytes) pieces = some r) (hr : r.asked asks = none) :
    maxRequestBytes < r.got.length ∧ maxRequestBytes < bytes.length ∨ r.got = bytes := by
  obtain ⟨hsent, hended⟩ := Reading.run_got h
  rw [← hsent] at hline
  have hall : r.rest = [] → r.got = bytes := fun hrest => by rw [← hsent, hrest, List.append_nil]
  rcases Reading.asked_eq_none.mp hr with hr | hr
  · exact .inr (hall (hended hr))
  · rcases asks_eq_none.mp hr with hnew | hlong
    · exact .inr (hall (hline.eq_of_mem hnew))
    · refine .inl ⟨hlong, ?_⟩
      rw [← hsent, List.length_append]
      omega

/-! ### The request -/

def tooLarge : Except Fault Request := .error (.error (.badRequest "Request too large".toList))

/-- What `read_request` makes of the bytes it has read. -/
theorem readRequest_of_raw (limit : ℕ) (caller : Caller) {raw : List UInt8} (h : caller.raw = some raw) :
    readRequest limit caller = if maxRequestBytes < raw.length then tooLarge else readLine limit (firstLine raw) := by
  rw [readRequest, h]
  rfl

theorem readRequest_stdin (limit : ℕ) (bytes : List UInt8) :
    readRequest limit (.stdin bytes) =
      if maxRequestBytes < bytes.length then tooLarge else readLine limit (firstLine bytes) := by
  rw [readRequest_of_raw limit (.stdin bytes) rfl]
  by_cases hlong : maxRequestBytes < bytes.length
  · rw [if_pos hlong, if_pos (by rw [List.length_take]; omega)]
  · rw [List.take_of_length_le (by omega)]

theorem toRequest_ne_tooLarge (v : Json) : toRequest v ≠ .error (.badRequest "Request too large".toList) := by
  intro h
  unfold toRequest at h
  split at h
  · split at h
    · split at h
      · cases h
      · exact absurd (ServeError.badRequest.inj (Except.error.inj h)) (by decide)
    · exact absurd (ServeError.badRequest.inj (Except.error.inj h)) (by decide)
  · exact absurd (ServeError.badRequest.inj (Except.error.inj h)) (by decide)

/-- The message is for size alone. -/
theorem readLine_ne_tooLarge (limit : ℕ) (line : List UInt8) : readLine limit line ≠ tooLarge := by
  intro h
  unfold readLine tooLarge at h
  split at h
  · exact absurd (ServeError.badRequest.inj (Fault.error.inj (Except.error.inj h))) (by decide)
  · exact absurd (ServeError.badRequest.inj (Fault.error.inj (Except.error.inj h))) (by decide)
  · cases h
  · rename_i v _
    cases hv : toRequest v with
    | ok r =>
      rw [hv] at h
      cases h
    | error err =>
      rw [hv] at h
      have herr := Fault.error.inj (Except.error.inj h)
      exact toRequest_ne_tooLarge v (herr ▸ hv)

/-- For any line and any way to cut it: there are no more pieces than bytes, and one more for the end; each
`recv` asks for something and is given a piece; when no more is asked for, the request is what it is from
standard input; and it is too large from 4097 bytes on. -/
theorem readRequest_packets (limit : ℕ) {bytes : List UInt8} (hline : OneLine bytes) :
    (∀ pieces r, Machine.run (Reading.recv asks) (.start bytes) pieces = some r →
        pieces.length ≤ bytes.length + 1 ∧
          (∀ n, r.asked asks = some n → 0 < n ∧ ∃ piece t, r.recv asks piece = some t) ∧
          (r.asked asks = none →
            readRequest limit (.unix (.gave pieces)) = readRequest limit (.stdin bytes) ∧
              ∀ peername, readRequest limit (.tcp (.gave pieces) peername) = readRequest limit (.stdin bytes))) ∧
      (readRequest limit (.stdin bytes) = tooLarge ↔ maxRequestBytes < bytes.length) := by
  constructor
  · intro pieces r h
    refine ⟨?_, fun n hn => ?_, fun hr => ?_⟩
    · have hlen := Reading.run_length h
      simp only [Reading.left, Reading.start, Bool.false_eq_true, if_false] at hlen
      omega
    · have hpos := asks_pos (Reading.asked_eq_some.mp hn).2
      exact ⟨hpos, Reading.exists_recv hn hpos⟩
    · have hraw : recvLoop .closed [] (Socket.gave pieces).chunks = some r.got :=
        (recvLoop_filter []).trans (recvLoop_of_run rfl h hr)
      have hgot : (if maxRequestBytes < r.got.length then tooLarge else readLine limit (firstLine r.got)) =
          readRequest limit (.stdin bytes) := by
        rw [readRequest_stdin]
        rcases got_of_run hline h hr with ⟨hlong, hbytes⟩ | hall
        · rw [if_pos hlong, if_pos hbytes]
        · rw [hall]
      refine ⟨(readRequest_of_raw limit (.unix (.gave pieces)) hraw).trans hgot, fun peername => ?_⟩
      exact (readRequest_of_raw limit (.tcp (.gave pieces) peername) hraw).trans hgot
  · rw [readRequest_stdin, ite_eq_left_iff]
    constructor
    · intro h
      by_contra hlong
      exact readLine_ne_tooLarge limit _ (h hlong)
    · exact fun hlong hshort => absurd hlong hshort

/-- `{}` and its newline in two pieces. -/
theorem readRequest_packets_braces :
    readRequest 900 (.unix (.gave [[123], [125, 10]])) = readRequest 900 (.stdin [123, 125, 10]) := by
  have hline : OneLine [123, 125, 10] := ⟨[123, 125], by decide, .inr rfl⟩
  have hrun : Machine.run (Reading.recv asks) (.start [123, 125, 10]) [[123], [125, 10]] =
      some ⟨[123, 125, 10], [], false⟩ := by decide
  exact (((readRequest_packets 900 hline).1 _ _ hrun).2.2 (by decide)).1

end AmneziaVpnBot.Vpnctl
