import RiscosBuilder.Agent.CommandHandover
import RiscosBuilder.Library.Packets

/-!
# Lines of a stream without telnet framing

Where no `IAC` is on the wire, the chunks are payload as they come.  What
`read_line` does with the next terminator depends on what the chunk that brings
it holds behind it, and on nothing that comes later.
-/

namespace RiscosBuilder.Agent.Telnet

open RiscosBuilder.Library RiscosBuilder.Library.Packets

/-- No framing is to come, nothing waits to be decoded, no end has been met. -/
structure Plain (chan : Telnet) : Prop where
  running : chan.eof = false
  decoded : chan.raw = []
  clean : IAC ∉ wire chan.sock.arrivals

/-- The payload in the pieces in which it comes; what is buffered comes first. -/
def packets (chan : Telnet) : List (List UInt8) :=
  chan.buf :: chan.sock.arrivals.map Subtype.val

theorem packets_flatten (chan : Telnet) :
    chan.packets.flatten = chan.buf ++ wire chan.sock.arrivals :=
  List.flatten_cons

theorem scan_plain {plain : List UInt8} (clean : IAC ∉ plain) :
    scan plain = ⟨plain, [], []⟩ := by
  simpa using scan_plain_append clean []

namespace Plain

variable {chan : Telnet} {chunk : Chunk} {later : List Chunk}

theorem with_buf (plain : chan.Plain) (buf : List UInt8) :
    Plain { chan with buf } :=
  ⟨plain.running, plain.decoded, plain.clean⟩

theorem payload (plain : chan.Plain) : chan.payload = chan.packets.flatten := by
  rw [packets_flatten, Telnet.payload, upcoming, plain.running, flushed,
    remaining, plain.decoded, List.nil_append, scan_plain plain.clean]
  cases chan.sock.ending <;> simp

theorem fill_eq (plain : chan.Plain)
    (harrivals : chan.sock.arrivals = chunk :: later) :
    chan.fill.sock = { chan.sock with arrivals := later } ∧
      chan.fill.buf = chan.buf ++ chunk.1 ∧ chan.fill.raw = [] ∧
      chan.fill.eof = false := by
  have hclean : IAC ∉ chunk.1 := fun member => plain.clean (by
    rw [harrivals, wire_cons]
    exact List.mem_append_left _ member)
  have filled := fill_filled harrivals
  have hscan : scan (chan.raw ++ wire [chunk]) = ⟨chunk.1, [], []⟩ := by
    simpa [plain.decoded] using scan_plain hclean
  refine ⟨?_, by rw [filled.buf, hscan], by rw [filled.raw, hscan],
    filled.eof.trans plain.running⟩
  obtain ⟨⟨arrivals, ending, sends, sent⟩, buf, raw, eof, undecodable⟩ := chan
  simp only at harrivals
  subst harrivals
  obtain ⟨data, nonempty⟩ := chunk
  cases data with
  | nil => exact absurd rfl nonempty
  | cons first others =>
      simp only [wire_cons, wire_nil, List.append_nil] at hscan
      simp [fill, Socket.recv, hscan]

theorem fill (plain : chan.Plain)
    (harrivals : chan.sock.arrivals = chunk :: later) : chan.fill.Plain := by
  obtain ⟨hsock, -, hraw, heof⟩ := plain.fill_eq harrivals
  refine ⟨heof, hraw, fun member => plain.clean ?_⟩
  rw [hsock] at member
  rw [harrivals, wire_cons]
  exact List.mem_append_right _ member

theorem fill_packets (plain : chan.Plain)
    (harrivals : chan.sock.arrivals = chunk :: later) :
    chan.fill.packets = (chan.buf ++ chunk.1) :: later.map Subtype.val := by
  obtain ⟨hsock, hbuf, -, -⟩ := plain.fill_eq harrivals
  rw [packets, hsock, hbuf]

end Plain

/-! ## One line -/

theorem readLine_of_split {chan : Telnet} {line rest : List UInt8}
    (split : splitLine chan.buf = some (line, rest)) :
    chan.readLine = (some line, { chan with buf := rest }) := by
  rw [readLine, fillWhile_of_enough (by simp [split])]
  simp [split]

theorem readLine_of_none {chan : Telnet} (running : chan.eof = false)
    {chunk : Chunk} {later : List Chunk}
    (harrivals : chan.sock.arrivals = chunk :: later)
    (split : splitLine chan.buf = none) :
    chan.readLine = chan.fill.readLine := by
  rw [readLine, fillWhile_of_short harrivals running (by simp [split]), readLine]

/-- A buffer that ends inside the line has no terminator. -/
theorem splitLine_short {text buf more tail : List UInt8} {sep : UInt8}
    (whole : Unterminated text) (split : buf ++ more = text ++ sep :: tail)
    (short : buf.length < text.length + 1) : splitLine buf = none := by
  have hfront : buf <+: text := by
    apply List.prefix_of_prefix_length_le (List.prefix_append buf more)
    · exact split ▸ List.prefix_append text (sep :: tail)
    · omega
  exact splitLine_unterminated ⟨fun cr => whole.1 (hfront.subset cr),
    fun lf => whole.2 (hfront.subset lf)⟩

/-- A line that is in the buffer with its terminator is taken out of it. -/
theorem Plain.readLine_buffered {chan : Telnet} (plain : chan.Plain)
    {text tail : List UInt8} {sep : UInt8}
    (split : chan.packets.flatten = text ++ sep :: tail)
    (enough : text.length + 1 ≤ chan.buf.length) :
    ∃ seen later, advance chan.packets (text.length + 1) = seen :: later ∧
      seen ++ later.flatten = tail ∧
      ∀ line rest, splitLine (text ++ sep :: seen) = some (line, rest) →
        chan.readLine.1 = some line ∧ chan.readLine.2.Plain ∧
          chan.readLine.2.packets = rest :: later ∧
          chan.readLine.2.sock.sends = chan.sock.sends := by
  have hwhole : text ++ [sep] <+: text ++ sep :: tail := ⟨tail, by simp⟩
  have hbuffered : chan.buf <+: text ++ sep :: tail :=
    ⟨wire chan.sock.arrivals, by rw [← packets_flatten, split]⟩
  obtain ⟨seen, hseen⟩ := List.prefix_of_prefix_length_le hwhole
    hbuffered (by simpa using enough)
  have hdrop : chan.buf.drop (text.length + 1) = seen := by
    rw [← hseen, List.drop_left' (by simp)]
  have hbuf : chan.buf = text ++ sep :: seen := by
    simpa using hseen.symm
  refine ⟨seen, chan.sock.arrivals.map Subtype.val, ?_, ?_,
    fun line rest found => ?_⟩
  · rw [packets, advance_of_le enough, hdrop]
  · rw [packets_flatten, hbuf] at split
    simpa [wire] using split
  · rw [← hbuf] at found
    rw [readLine_of_split found]
    exact ⟨rfl, plain.with_buf rest, by simp [packets], rfl⟩

/--
The line is taken out of what has come when its terminator has: `seen` is what
the last of the chunks needed holds behind the terminator.
-/
theorem Plain.readLine_eq {chan : Telnet} (plain : chan.Plain)
    {text tail : List UInt8} {sep : UInt8} (whole : Unterminated text)
    (split : chan.packets.flatten = text ++ sep :: tail) :
    ∃ seen later, advance chan.packets (text.length + 1) = seen :: later ∧
      seen ++ later.flatten = tail ∧
      ∀ line rest, splitLine (text ++ sep :: seen) = some (line, rest) →
        chan.readLine.1 = some line ∧ chan.readLine.2.Plain ∧
          chan.readLine.2.packets = rest :: later ∧
          chan.readLine.2.sock.sends = chan.sock.sends := by
  induction harrivals : chan.sock.arrivals generalizing chan with
  | nil =>
      have hbuf : chan.buf = text ++ sep :: tail := by
        simpa [packets_flatten, harrivals] using split
      exact plain.readLine_buffered split (by simp [hbuf])
  | cons chunk later ih =>
      by_cases enough : text.length + 1 ≤ chan.buf.length
      · exact plain.readLine_buffered split enough
      · rw [Nat.not_le] at enough
        have hpackets := plain.fill_packets harrivals
        obtain ⟨hsock, -⟩ := plain.fill_eq harrivals
        have hmerge : advance chan.fill.packets (text.length + 1) =
            advance chan.packets (text.length + 1) := by
          rw [hpackets, packets, harrivals, List.map_cons,
            advance_merge enough]
        have hsplit : chan.fill.packets.flatten = text ++ sep :: tail := by
          rw [← split, hpackets, packets, harrivals]
          simp
        obtain ⟨seen, rest, hadvance, htail, hread⟩ :=
          ih (plain.fill harrivals) hsplit (by rw [hsock])
        refine ⟨seen, rest, hmerge ▸ hadvance, htail, ?_⟩
        rw [packets_flatten] at split
        rw [readLine_of_none plain.running harrivals
          (splitLine_short whole split enough)]
        rwa [hsock] at hread

/-- Without a terminator to come, all that comes is the last line. -/
theorem Plain.readLine_last {chan : Telnet} (plain : chan.Plain)
    (whole : Unterminated chan.packets.flatten) :
    chan.readLine.1 =
        (if chan.packets.flatten = [] then none
          else some chan.packets.flatten) ∧
      chan.readLine.2.eof = true := by
  induction harrivals : chan.sock.arrivals generalizing chan with
  | nil =>
      have hpackets : chan.packets.flatten = chan.buf := by
        simp [packets_flatten, harrivals]
      rw [hpackets] at whole ⊢
      have hnone := splitLine_unterminated whole
      have ended := fill_ended harrivals
      have hbuf : chan.fill.buf = chan.buf := by
        rw [ended.buf, plain.decoded]
        cases chan.sock.ending <;> simp
      have hloop : fillWhile (fun buf => (splitLine buf).isNone)
          chan.fillBound chan = chan.fill := by
        rw [fillBound, harrivals, fillWhile]
        simp [hnone, plain.running, fillWhile]
      rw [readLine, hloop]
      simp [hbuf, hnone, ended.eof]
  | cons chunk later ih =>
      have hnone : splitLine chan.buf = none := by
        refine splitLine_unterminated ⟨fun cr => whole.1 ?_, fun lf => whole.2 ?_⟩
        all_goals
          rw [packets_flatten]
          exact List.mem_append_left _ ‹_›
      obtain ⟨hsock, -⟩ := plain.fill_eq harrivals
      have hflatten : chan.fill.packets.flatten = chan.packets.flatten := by
        rw [plain.fill_packets harrivals, packets, harrivals]
        simp
      rw [readLine_of_none plain.running harrivals hnone, ← hflatten]
      exact ih (plain.fill harrivals) (hflatten ▸ whole) (by rw [hsock])

end RiscosBuilder.Agent.Telnet
