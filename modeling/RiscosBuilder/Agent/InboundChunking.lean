import RiscosBuilder.Agent.ChannelPayload

/-!
# Inbound decoding does not depend on chunking

However a stream is cut into `recv` results, and however reads are interleaved
with their arrival, the channel has decoded exactly what a single scan of the
bytes received so far decodes.  The one addition is made at an orderly end of
stream, where `_fill` turns the undecodable tail into payload.
-/

namespace RiscosBuilder.Agent.Telnet

/-- A fresh connection on which nothing has been sent. -/
def opened (chunks : List Chunk) (ending : Ending) (sends : List Bool) : Telnet :=
  connect ⟨chunks, ending, sends, []⟩

/-- `_fill` once for every chunk, on a fresh connection. -/
def driven (chunks : List Chunk) (ending : Ending) (sends : List Bool) : Telnet :=
  fill^[chunks.length] (opened chunks ending sends)

/-- What a user of the channel can do: let `_fill` run once, or read. -/
inductive Call where
  | fill
  | read (want : Nat)

def call (chan : Telnet) : Call → List UInt8 × Telnet
  | .fill => ([], chan.fill)
  | .read want => chan.read want

/-- A succession of calls: all the bytes returned, and the channel after. -/
def calls : List Call → Telnet → List UInt8 × Telnet
  | [], chan => ([], chan)
  | first :: others, chan =>
      ((chan.call first).1 ++ (calls others (chan.call first).2).1,
        (calls others (chan.call first).2).2)

theorem driven_filled (chunks : List Chunk) (ending : Ending)
    (sends : List Bool) :
    Filled (opened chunks ending sends) chunks
      (driven chunks ending sends) := by
  have filled := @filled_iterate (opened chunks ending sends)
    chunks.length le_rfl
  simpa [driven, opened, connect] using filled

theorem driven_buf (chunks : List Chunk) (ending : Ending)
    (sends : List Bool) :
    (driven chunks ending sends).buf = (scan (wire chunks)).out := by
  simpa [opened, connect] using (driven_filled chunks ending sends).buf

theorem driven_raw (chunks : List Chunk) (ending : Ending)
    (sends : List Bool) :
    (driven chunks ending sends).raw = (scan (wire chunks)).raw := by
  simpa [opened, connect] using (driven_filled chunks ending sends).raw

theorem driven_sent (chunks : List Chunk) (ending : Ending)
    (sends : List Bool) :
    (driven chunks ending sends).sock.sent =
      (scan (wire chunks)).reply.flatten := by
  simpa [opened, connect] using (driven_filled chunks ending sends).sent

/-! ## Reads among the arrivals -/

/-- The channel before bytes already handed out were taken from `buf`. -/
def unread (out : List UInt8) (chan : Telnet) : Telnet :=
  { chan with buf := out ++ chan.buf }

/-- `_fill` never looks at the payload buffered before. -/
theorem fill_unread (out : List UInt8) (chan : Telnet) :
    (unread out chan).fill = unread out chan.fill := by
  obtain ⟨⟨arrivals, ending, sends, sent⟩, buf, raw, eof, undecodable⟩ := chan
  cases arrivals with
  | nil => cases ending <;> simp [fill, unread, Socket.recv]
  | cons chunk later =>
      obtain ⟨data, nonempty⟩ := chunk
      cases data with
      | nil => exact absurd rfl nonempty
      | cons first others =>
          simp only [fill, unread, Socket.recv, List.append_assoc]
          rfl

/-- A channel on its way: chunks have been pulled, then perhaps the end met. -/
def Progress (start chan : Telnet) : Prop :=
  (∃ taken, Filled start taken chan) ∨
    ∃ last, Filled start start.sock.arrivals last ∧ Ended last chan

theorem Ended.fill {last chan : Telnet} (ended : Ended last chan) :
    Ended last chan.fill := by
  have again := fill_ended ended.arrivals
  constructor
  · exact ended.none_left
  · exact again.arrivals
  · rw [again.ending, ended.ending]
  · rw [again.buf, ended.ending, ended.buf, ended.raw]
    cases last.sock.ending <;> simp
  · rw [again.raw, ended.ending, ended.raw]
    cases last.sock.ending <;> rfl
  · exact again.eof

theorem Progress.fill {start chan : Telnet} (progress : Progress start chan) :
    Progress start chan.fill := by
  rcases progress with ⟨taken, filled⟩ | ⟨last, filled, ended⟩
  · cases harrivals : chan.sock.arrivals with
    | nil =>
        refine Or.inr ⟨chan, ?_, fill_ended harrivals⟩
        have hall := filled.arrivals
        rw [harrivals, List.append_nil] at hall
        rwa [hall]
    | cons chunk later =>
        exact Or.inl ⟨taken ++ [chunk], filled.trans (fill_filled harrivals)⟩
  · exact Or.inr ⟨last, filled, ended.fill⟩

theorem Progress.fillWhile {start chan : Telnet} {out : List UInt8}
    (short : List UInt8 → Bool) (fuel : Nat)
    (progress : Progress start (unread out chan)) :
    Progress start (unread out (fillWhile short fuel chan)) := by
  induction fuel generalizing chan with
  | zero => exact progress
  | succ fuel ih =>
      rw [Telnet.fillWhile]
      split
      · refine ih ?_
        rw [← fill_unread]
        exact progress.fill
      · exact progress

theorem Progress.call {start chan : Telnet} {out : List UInt8}
    (progress : Progress start (unread out chan)) (act : Call) :
    Progress start (unread (out ++ (chan.call act).1) (chan.call act).2) := by
  cases act with
  | fill =>
      rw [Telnet.call, List.append_nil, ← fill_unread]
      exact progress.fill
  | read want =>
      have pulled := progress.fillWhile
        (fun buf => decide (buf.length < want)) chan.fillBound
      simpa [Telnet.call, Telnet.read, unread] using pulled

theorem Progress.calls {start chan : Telnet} {out : List UInt8}
    (progress : Progress start (unread out chan)) (acts : List Call) :
    Progress start
      (unread (out ++ (calls acts chan).1) (calls acts chan).2) := by
  induction acts generalizing chan out with
  | nil => simpa [Telnet.calls] using progress
  | cons act acts ih =>
      simpa [Telnet.calls, List.append_assoc] using ih (progress.call act)

/--
Chunking does not matter.  Two ways of cutting a stream leave the same payload,
the same replies and the same undecoded remainder.  And for any succession of
calls, the bytes returned and those left in `buf` are the payload of the chunks
that have arrived, followed by the remainder once an orderly end was met; a
read is short at end of stream only.
-/
theorem inbound_chunking {first second : List Chunk}
    (same : wire first = wire second) (ending : Ending)
    (sends otherSends : List Bool) :
    ((driven first ending sends).buf = (driven second ending otherSends).buf ∧
      (driven first ending sends).sock.sent =
        (driven second ending otherSends).sock.sent ∧
      (driven first ending sends).raw = (driven second ending otherSends).raw) ∧
    ∀ acts : List Call,
      (∃ taken,
        first = taken ++
          (calls acts (opened first ending sends)).2.sock.arrivals ∧
        ((calls acts (opened first ending sends)).2.eof = true →
          taken = first) ∧
        (calls acts (opened first ending sends)).1 ++
            (calls acts (opened first ending sends)).2.buf =
          (driven taken ending sends).buf ++
            (if (calls acts (opened first ending sends)).2.eof = true ∧
                ending = .closed
              then (driven first ending sends).raw else [])) ∧
      ∀ want,
        ((calls acts (opened first ending sends)).2.read want).1.length = want ∨
        ((calls acts (opened first ending sends)).2.read want).2.eof = true := by
  refine ⟨⟨?_, ?_, ?_⟩, ?_⟩
  · rw [driven_buf, driven_buf, same]
  · rw [driven_sent, driven_sent, same]
  · rw [driven_raw, driven_raw, same]
  · intro acts
    have start : Progress (opened first ending sends)
        (unread [] (opened first ending sends)) :=
      Or.inl ⟨[], Filled.refl _⟩
    have progress := start.calls acts
    generalize calls acts (opened first ending sends) = result at progress ⊢
    obtain ⟨out, after⟩ := result
    refine ⟨?_, after.read_length⟩
    rw [List.nil_append] at progress
    rcases progress with ⟨taken, filled⟩ | ⟨last, filled, ended⟩
    · have running : after.eof = false := filled.eof
      refine ⟨taken, filled.arrivals, by simp [running], ?_⟩
      have hbuf : out ++ after.buf = _ := filled.buf
      simp [hbuf, driven_buf, running, opened, connect]
    · have hend : after.eof = true := ended.eof
      have hlast : last.sock.ending = ending := filled.ending
      have hbuf : out ++ after.buf = _ := ended.buf
      refine ⟨first, ?_, fun _ => rfl, ?_⟩
      · have harrivals : after.sock.arrivals = [] := ended.arrivals
        simp [harrivals]
      · simp only
        rw [hbuf, hlast, filled.buf, filled.raw, driven_buf, driven_raw]
        cases ending <;> simp [hend, opened, connect]

/-- A stream cut inside an escape, against the same stream in one chunk. -/
theorem inbound_chunking_split_escape :
    (driven [⟨[65, IAC], by decide⟩, ⟨[IAC], by decide⟩] .closed []).buf =
        (driven [⟨[65, IAC, IAC], by decide⟩] .closed []).buf ∧
      (driven [⟨[65, IAC], by decide⟩, ⟨[IAC], by decide⟩] .closed
          []).sock.sent =
        (driven [⟨[65, IAC, IAC], by decide⟩] .closed []).sock.sent ∧
      (driven [⟨[65, IAC], by decide⟩, ⟨[IAC], by decide⟩] .closed []).raw =
        (driven [⟨[65, IAC, IAC], by decide⟩] .closed []).raw :=
  (@inbound_chunking [⟨[65, IAC], by decide⟩, ⟨[IAC], by decide⟩]
    [⟨[65, IAC, IAC], by decide⟩] rfl .closed [] []).1

/--
At an orderly end of stream more than the decoded payload comes out: of a
stream that is a lone `IAC` nothing is decoded, and `read 1` returns it.
-/
theorem inbound_chunking_flushes_tail :
    (calls [.read 1] (opened [⟨[IAC], by decide⟩] .closed [])).2.sock.arrivals =
        [] ∧
      (calls [.read 1] (opened [⟨[IAC], by decide⟩] .closed [])).1 ++
          (calls [.read 1] (opened [⟨[IAC], by decide⟩] .closed [])).2.buf ≠
        (driven [⟨[IAC], by decide⟩] .closed []).buf := by
  decide

end RiscosBuilder.Agent.Telnet
