import RiscosBuilder.Agent.Telnet
import Mathlib.Logic.Function.Iterate
import Mathlib.Order.Nat

/-!
# The payload a channel still has to yield

What reading from a `Telnet` returns is described by one byte string, the
payload: what is buffered, then what the rest of the wire decodes to, then the
undecodable tail if the connection closes in order.  Pulling a chunk leaves it
alone, `read` takes its front off, and `read_line` takes a line off it, up to
the treatment of the two bytes behind the line.
-/

namespace RiscosBuilder.Agent.Telnet

/-- The bytes on the wire that are not decoded yet. -/
def remaining (chan : Telnet) : List UInt8 :=
  chan.raw ++ wire chan.sock.arrivals

/-- At an orderly end of stream the undecodable tail counts as payload. -/
def flushed (chan : Telnet) : List UInt8 :=
  match chan.sock.ending with
  | .closed => (scan chan.remaining).raw
  | .broken => []

/-- The payload that `_fill` has still to add to `buf`. -/
def upcoming (chan : Telnet) : List UInt8 :=
  if chan.eof then [] else (scan chan.remaining).out ++ chan.flushed

/-- All the payload there is left to read. -/
def payload (chan : Telnet) : List UInt8 :=
  chan.buf ++ chan.upcoming

@[simp] theorem upcoming_with_buf (chan : Telnet) (buf : List UInt8) :
    upcoming { chan with buf } = chan.upcoming := rfl

@[simp] theorem payload_with_buf (chan : Telnet) (buf : List UInt8) :
    payload { chan with buf } = buf ++ chan.upcoming := rfl

theorem scan_raw (chan : Telnet) : scan chan.raw = ⟨[], [], chan.raw⟩ :=
  scan_stuck chan.undecodable

/-! ## One chunk -/

/--
What a channel has become when exactly `taken` has been pulled off the wire and
nothing has been read from it.
-/
structure Filled (chan : Telnet) (taken : List Chunk) (after : Telnet) : Prop where
  arrivals : chan.sock.arrivals = taken ++ after.sock.arrivals
  ending : after.sock.ending = chan.sock.ending
  sent : after.sock.sent =
    chan.sock.sent ++ (scan (chan.raw ++ wire taken)).reply.flatten
  buf : after.buf = chan.buf ++ (scan (chan.raw ++ wire taken)).out
  raw : after.raw = (scan (chan.raw ++ wire taken)).raw
  eof : after.eof = chan.eof

/-- What a channel has become when `_fill` has met the end of the stream. -/
structure Ended (chan after : Telnet) : Prop where
  none_left : chan.sock.arrivals = []
  arrivals : after.sock.arrivals = []
  ending : after.sock.ending = chan.sock.ending
  buf : after.buf = chan.buf ++
    match chan.sock.ending with | .closed => chan.raw | .broken => []
  raw : after.raw =
    match chan.sock.ending with | .closed => [] | .broken => chan.raw
  eof : after.eof = true

theorem Filled.refl (chan : Telnet) : Filled chan [] chan where
  arrivals := rfl
  ending := rfl
  sent := by simp [chan.scan_raw]
  buf := by simp [chan.scan_raw]
  raw := by simp [chan.scan_raw]
  eof := rfl

theorem Filled.trans {first second third : Telnet} {early late : List Chunk}
    (before : Filled first early second) (after : Filled second late third) :
    Filled first (early ++ late) third := by
  have hscan := scan_append (first.raw ++ wire early) (wire late)
  rw [← before.raw, List.append_assoc, ← wire_append] at hscan
  constructor
  · rw [before.arrivals, after.arrivals, List.append_assoc]
  · rw [after.ending, before.ending]
  · rw [after.sent, before.sent, hscan, List.flatten_append, List.append_assoc]
  · rw [after.buf, before.buf, hscan, List.append_assoc]
  · rw [after.raw, hscan]
  · rw [after.eof, before.eof]

/-- With a chunk to come, `_fill` pulls and decodes that chunk. -/
theorem fill_filled {chan : Telnet} {chunk : Chunk} {later : List Chunk}
    (harrivals : chan.sock.arrivals = chunk :: later) :
    Filled chan [chunk] chan.fill := by
  obtain ⟨⟨arrivals, ending, sends, sent⟩, buf, raw, eof, undecodable⟩ := chan
  simp only at harrivals
  subst harrivals
  obtain ⟨data, nonempty⟩ := chunk
  cases data with
  | nil => exact absurd rfl nonempty
  | cons first others =>
      constructor
      · simp only [fill, Socket.recv]
        split <;> rfl
      · simp only [fill, Socket.recv]
        split <;> rfl
      · simp only [fill, Socket.recv, wire_cons, wire_nil, List.append_nil]
        split
        · next silent => simp [List.isEmpty_iff.mp silent]
        · rfl
      · simp [fill, Socket.recv]
      · simp [fill, Socket.recv]
      · simp [fill, Socket.recv]

/-- With no chunk to come, `_fill` meets the end of the stream. -/
theorem fill_ended {chan : Telnet} (harrivals : chan.sock.arrivals = []) :
    Ended chan chan.fill := by
  obtain ⟨⟨arrivals, ending, sends, sent⟩, buf, raw, eof, undecodable⟩ := chan
  simp only at harrivals
  subst harrivals
  cases ending <;> constructor <;> simp [fill, Socket.recv]

/-- Pulling chunks moves payload from the wire into `buf`, no more. -/
theorem Filled.payload {chan after : Telnet} {taken : List Chunk}
    (filled : Filled chan taken after) (running : chan.eof = false) :
    after.payload = chan.payload := by
  have hremaining : chan.remaining =
      (chan.raw ++ wire taken) ++ wire after.sock.arrivals := by
    simp [remaining, filled.arrivals]
  have hscan := scan_append (chan.raw ++ wire taken) (wire after.sock.arrivals)
  rw [← hremaining, ← filled.raw, show after.raw ++ wire after.sock.arrivals =
    after.remaining from rfl] at hscan
  unfold Telnet.payload upcoming flushed
  rw [filled.eof, filled.ending, filled.buf]
  cases hending : chan.sock.ending <;>
    simp [running, hscan, List.append_assoc]

theorem Ended.payload {chan after : Telnet} (done : Ended chan after)
    (running : chan.eof = false) : after.payload = chan.payload := by
  have hremaining : chan.remaining = chan.raw := by
    simp [remaining, done.none_left]
  unfold Telnet.payload upcoming flushed
  rw [hremaining, chan.scan_raw, done.buf]
  cases chan.sock.ending <;> simp [running, done.eof]

theorem fill_payload {chan : Telnet} (running : chan.eof = false) :
    chan.fill.payload = chan.payload := by
  cases harrivals : chan.sock.arrivals with
  | nil => exact (fill_ended harrivals).payload running
  | cons chunk later => exact (fill_filled harrivals).payload running

/-! ## Pulling until there is enough -/

/-- Pulling the first `count` chunks one after the other. -/
theorem filled_iterate (chan : Telnet) {count : Nat}
    (available : count ≤ chan.sock.arrivals.length) :
    Filled chan (chan.sock.arrivals.take count) (fill^[count] chan) := by
  induction count with
  | zero => simpa using Filled.refl chan
  | succ count ih =>
      have before := ih (by omega)
      have hdrop : (fill^[count] chan).sock.arrivals =
          chan.sock.arrivals.drop count := by
        have hsplit := before.arrivals
        conv at hsplit => lhs; rw [← List.take_append_drop count
          chan.sock.arrivals]
        exact (List.append_cancel_left hsplit).symm
      rw [List.drop_eq_getElem_cons (by omega)] at hdrop
      rw [Function.iterate_succ_apply', List.take_add_one,
        List.getElem?_eq_getElem (by omega)]
      exact before.trans (fill_filled hdrop)

/-- The loop around `_fill` is some number of calls, each of them needed. -/
theorem fillWhile_eq_iterate (short : List UInt8 → Bool) (fuel : Nat)
    (chan : Telnet) :
    ∃ count, count ≤ fuel ∧ fillWhile short fuel chan = fill^[count] chan ∧
      (∀ earlier < count, short (fill^[earlier] chan).buf = true ∧
        (fill^[earlier] chan).eof = false) ∧
      (count = fuel ∨ short (fill^[count] chan).buf = false ∨
        (fill^[count] chan).eof = true) := by
  induction fuel generalizing chan with
  | zero => exact ⟨0, le_rfl, rfl, by simp, Or.inl rfl⟩
  | succ fuel ih =>
      by_cases again : (short chan.buf && !chan.eof) = true
      · obtain ⟨count, hcount, heq, hbefore, hstop⟩ := ih chan.fill
        refine ⟨count + 1, by omega, ?_, ?_, ?_⟩
        · rw [fillWhile, if_pos again, heq]
          rfl
        · intro earlier hearlier
          cases earlier with
          | zero => simpa using again
          | succ earlier => exact hbefore earlier (by omega)
        · exact hstop.imp (by omega) id
      · refine ⟨0, by omega, ?_, by simp, Or.inr ?_⟩
        · rw [fillWhile, if_neg again]
          rfl
        · simp only [Bool.and_eq_true, Bool.not_eq_true', not_and_or,
            Bool.not_eq_true, Bool.not_eq_false] at again
          exact again

theorem iterate_fillBound_eof (chan : Telnet) :
    (fill^[chan.fillBound] chan).eof = true := by
  have filled := filled_iterate chan (le_refl chan.sock.arrivals.length)
  have hnone := filled.arrivals
  rw [List.take_length, List.self_eq_append_right] at hnone
  rw [fillBound, Function.iterate_succ_apply']
  exact (fill_ended hnone).eof

/-- With enough in the buffer, nothing is pulled. -/
theorem fillWhile_of_enough {short : List UInt8 → Bool} {chan : Telnet}
    (enough : short chan.buf = false) :
    fillWhile short chan.fillBound chan = chan := by
  rw [fillBound, fillWhile]
  simp [enough]

/-- Otherwise the chunk that comes next is. -/
theorem fillWhile_of_short {short : List UInt8 → Bool} {chan : Telnet}
    {chunk : Chunk} {later : List Chunk}
    (harrivals : chan.sock.arrivals = chunk :: later)
    (running : chan.eof = false) (needs : short chan.buf = true) :
    fillWhile short chan.fillBound chan =
      fillWhile short chan.fill.fillBound chan.fill := by
  have hleft : chan.sock.arrivals = chunk :: chan.fill.sock.arrivals :=
    (fill_filled harrivals).arrivals
  have hbound : chan.fillBound = chan.fill.fillBound + 1 := by
    rw [fillBound, hleft, List.length_cons, fillBound]
  rw [hbound, fillWhile]
  simp [needs, running]

/-- The loop stops because there is enough, or at the end of the stream. -/
theorem fillWhile_stops (short : List UInt8 → Bool) (chan : Telnet) :
    short (fillWhile short chan.fillBound chan).buf = false ∨
      (fillWhile short chan.fillBound chan).eof = true := by
  obtain ⟨count, -, heq, -, hstop⟩ :=
    fillWhile_eq_iterate short chan.fillBound chan
  rw [heq]
  rcases hstop with rfl | hstop
  · exact Or.inr chan.iterate_fillBound_eof
  · exact hstop

/--
From an open stream the loop takes chunks until there is enough; where even all of
them are too short, it ends with the stream.
-/
theorem fillWhile_outcome (short : List UInt8 → Bool) {chan : Telnet}
    (running : chan.eof = false) :
    (∃ count ≤ chan.sock.arrivals.length,
      fillWhile short chan.fillBound chan = fill^[count] chan ∧
      (fill^[count] chan).eof = false ∧
      short (fill^[count] chan).buf = false ∧
      ∀ earlier < count, short (fill^[earlier] chan).buf = true) ∨
    ((fillWhile short chan.fillBound chan).eof = true ∧
      short (chan.buf ++ (scan chan.remaining).out) = true) := by
  obtain ⟨count, hcount, heq, hbefore, hstop⟩ :=
    fillWhile_eq_iterate short chan.fillBound chan
  by_cases havailable : count ≤ chan.sock.arrivals.length
  · have hopen : (fill^[count] chan).eof = false :=
      (filled_iterate chan havailable).eof.trans running
    refine Or.inl ⟨count, havailable, heq, hopen, ?_,
      fun earlier horder => (hbefore earlier horder).1⟩
    rcases hstop with hfuel | hstop | hstop
    · rw [fillBound] at hfuel
      omega
    · exact hstop
    · simp [hopen] at hstop
  · have hbound : count = chan.fillBound := by
      rw [fillBound] at hcount ⊢
      omega
    have hall : (fill^[chan.sock.arrivals.length] chan).buf =
        chan.buf ++ (scan chan.remaining).out := by
      simpa [remaining] using
        (filled_iterate chan (le_refl chan.sock.arrivals.length)).buf
    refine Or.inr ⟨?_, ?_⟩
    · rw [heq, hbound]
      exact chan.iterate_fillBound_eof
    · rw [← hall]
      exact (hbefore chan.sock.arrivals.length (by omega)).1

theorem fillWhile_payload (short : List UInt8 → Bool) (fuel : Nat)
    (chan : Telnet) : (fillWhile short fuel chan).payload = chan.payload := by
  induction fuel generalizing chan with
  | zero => rfl
  | succ fuel ih =>
      rw [fillWhile]
      split
      · next again =>
          simp only [Bool.and_eq_true, Bool.not_eq_true'] at again
          rw [ih, fill_payload again.2]
      · rfl

/-! ## Reading -/

theorem read_payload (chan : Telnet) (want : Nat) :
    (chan.read want).1 = chan.payload.take want ∧
      (chan.read want).2.payload = chan.payload.drop want := by
  have hpayload := fillWhile_payload (fun buf => decide (buf.length < want))
    chan.fillBound chan
  have hstop := fillWhile_stops (fun buf => decide (buf.length < want)) chan
  simp only [read]
  generalize fillWhile _ _ chan = after at hpayload hstop
  rw [← hpayload]
  rcases hstop with enough | ended
  · simp only [decide_eq_false_iff_not, not_lt] at enough
    simp [payload, List.take_append_of_le_length enough,
      List.drop_append_of_le_length enough]
  · simp [payload, upcoming, ended]

/-- A short read happens at end of stream only. -/
theorem read_length (chan : Telnet) (want : Nat) :
    (chan.read want).1.length = want ∨ (chan.read want).2.eof = true := by
  rcases fillWhile_stops (fun buf => decide (buf.length < want)) chan with
    enough | ended
  · simp only [decide_eq_false_iff_not, not_lt] at enough
    exact Or.inl (List.length_take_of_le enough)
  · exact Or.inr ended

/-- A succession of `read` calls: what they return, and the channel after. -/
def reads : List Nat → Telnet → List (List UInt8) × Telnet
  | [], chan => ([], chan)
  | want :: wants, chan =>
      ((chan.read want).1 :: (reads wants (chan.read want).2).1,
        (reads wants (chan.read want).2).2)

theorem reads_payload (wants : List Nat) (chan : Telnet) :
    (reads wants chan).1.flatten = chan.payload.take wants.sum ∧
      (reads wants chan).2.payload = chan.payload.drop wants.sum := by
  induction wants generalizing chan with
  | nil => simp [reads]
  | cons want wants ih =>
      obtain ⟨hout, hrest⟩ := chan.read_payload want
      obtain ⟨houts, hrests⟩ := ih (chan.read want).2
      simp only [reads, List.flatten_cons, List.sum_cons, hout, houts, hrests,
        hrest]
      simp [List.take_add, List.drop_drop]

end RiscosBuilder.Agent.Telnet
