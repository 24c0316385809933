import RiscosBuilder.Agent.AwaitedLines
import RiscosBuilder.Agent.Grammar
import RiscosBuilder.Build.ReadBack
import RiscosBuilder.Library.Pipe
import RiscosBuilder.Library.Trace

/-!
# The builder and the agent on one connection

`telnet_exec` of `build.py` on one end of a connection and `serve` of
`anyvmd.py` on the other.  The builder sends a command at the end of each
window and does not wait for the agent; the bytes come through in packets of
any size, at any time, and the connection can break.
-/

namespace RiscosBuilder.Build

open RiscosBuilder.Agent RiscosBuilder.Library RiscosBuilder.Library.ByteString

/-! ## The two parties -/

/--
The variables of `telnet_exec`.  While the windows last there is no `alive`;
afterwards it is what is returned with `out`.
-/
structure Exec where
  cmds : List CommandLine
  out : List UInt8
  alive : Option Bool

/--
The two ends and what is under way between them.  `chan` is the agent's end
until its loop is left; it has been `cut` off once nothing more reaches it.  In
the `log` are the commands that were run, each with what it has printed.
-/
structure Talk where
  exec : Exec
  outbound : Pipe UInt8
  inbound : Pipe UInt8
  chan : Option Telnet
  cut : Bool
  log : List (List UInt8 × List UInt8)

/--
What can happen: a window passes; the builder's `sendall` raises when so many
bytes are gone; its `recv` raises or finds the end; it returns a packet; a
packet reaches the agent, or the end of its stream does; the agent takes a turn.
-/
inductive Happening where
  | passed
  | raised (size : Nat)
  | lost
  | heard (packet : Chunk)
  | reached (packet : Chunk)
  | closed (ending : Agent.Ending)
  | turn (turn : Turn)

/-- `c.encode("utf-8", "replace") + b"\r\n"`. -/
def sentLine (c : CommandLine) : List UInt8 :=
  c.text ++ [CR, LF]

/-- A window of `_read_for` passes: the next command is sent, or it was the last. -/
def Talk.pass (talk : Talk) : Talk :=
  match talk.exec.cmds with
  | [] => { talk with exec := { talk.exec with alive := some true } }
  | c :: cmds =>
      { talk with
        exec := { talk.exec with cmds }
        outbound := talk.outbound.put (sentLine c) }

/-- The builder's `recv` has returned a packet. -/
def Talk.hear (talk : Talk) (packet : Chunk) (inbound : Pipe UInt8) : Talk :=
  { talk with
    exec :=
      { talk.exec with out := talk.exec.out ++ (telnetEatIac packet.1).out }
    outbound := talk.outbound.put (telnetEatIac packet.1).sent.flatten
    inbound }

/-- The agent's `recv` is going to return a packet. -/
def arrive (packet : Chunk) (chan : Telnet) : Telnet :=
  { chan with
    sock := { chan.sock with arrivals := chan.sock.arrivals ++ [packet] } }

/-- Behind what has arrived the agent's `recv` is going to find the end. -/
def arriveEnd (ending : Agent.Ending) (chan : Telnet) : Telnet :=
  { chan with sock := { chan.sock with ending } }

/-- What a turn has handed to `sendall`. -/
def turnSends (turn : Turn) (chan : Telnet) : List UInt8 :=
  ((serveTurn turn chan).next.map fun after =>
    after.sock.sent.drop chan.sock.sent.length).getD []

/-- The agent takes a turn; what it sends gets nowhere once it has been cut off. -/
def Talk.serve (talk : Talk) (turn : Turn) (chan : Telnet) : Talk :=
  { talk with
    chan := (serveTurn turn chan).next
    inbound :=
      if talk.cut then talk.inbound
      else talk.inbound.put (turnSends turn chan)
    log := talk.log ++
      (commandsOf (serveTurn turn chan).events).map (·, turn.output.flatten) }

/-- What becomes of the two; `none` where this cannot happen. -/
def Talk.next (talk : Talk) : Happening → Option Talk
  | .passed => if talk.exec.alive = none then some talk.pass else none
  | .raised size =>
      match talk.exec.alive, talk.exec.cmds with
      | none, c :: cmds =>
          some { talk with
            exec := { talk.exec with cmds, alive := some false }
            outbound := talk.outbound.put ((sentLine c).take size) }
      | _, _ => none
  | .lost =>
      if talk.exec.alive = none then
        some { talk with exec := { talk.exec with alive := some false } }
      else none
  | .heard packet =>
      if talk.exec.alive = none then
        (talk.inbound.deliver packet.1).map (talk.hear packet)
      else none
  | .reached packet =>
      if talk.cut then none
      else
        (talk.outbound.deliver packet.1).map fun outbound =>
          { talk with outbound, chan := talk.chan.map (arrive packet) }
  | .closed ending =>
      some { talk with cut := true, chan := talk.chan.map (arriveEnd ending) }
  | .turn turn =>
      talk.chan.bind fun chan =>
        if chan.Goes talk.cut then some (talk.serve turn chan) else none

/-- The steps of the conversation. -/
def Talk.Step (talk : Talk) (happening : Happening) (after : Talk) : Prop :=
  talk.next happening = some after

/-- `create_connection` has returned and the agent has accepted. -/
def Talk.opened (cmds : List CommandLine) (sends : List Bool) : Talk where
  exec := ⟨cmds, [], none⟩
  outbound := .empty
  inbound := .empty
  chan := some (Telnet.opened [] .closed sends)
  cut := false
  log := []

/-! ## What the builder takes off a packet -/

theorem eaten_of_some {data rest : List UInt8} {eaten : Eaten}
    (taken : eatNext data = some (eaten, rest)) :
    telnetEatIac data =
      ⟨eaten.out ++ (telnetEatIac rest).out,
        eaten.sent ++ (telnetEatIac rest).sent⟩ := by
  have hlt := eatNext_length taken
  have hstep : telnetEatIac data = eatUpTo ((data.length - 1) + 1) data := by
    rw [Nat.sub_add_cancel (by omega)]
    rfl
  rw [hstep]
  simp only [eatUpTo, taken]
  rw [eatUpTo_eq (by omega)]

/-- Escaped bytes are taken for what they are, and nothing is answered. -/
theorem telnetEatIac_escape (data : List UInt8) :
    telnetEatIac (Telnet.escape data) = ⟨data, []⟩ := by
  induction data with
  | nil => rfl
  | cons b data ih =>
      rw [Telnet.escape_cons]
      by_cases plain : b = IAC
      · subst plain
        rw [Telnet.escape_IAC]
        have hstep := eaten_of_some (eatNext_escaped (Telnet.escape data))
        rwa [ih] at hstep
      · rw [Telnet.escape_plain plain]
        have hstep := eaten_of_some (eatNext_plain plain (Telnet.escape data))
        rwa [ih] at hstep

theorem prefix_of_escape {first second : List UInt8}
    (front : Telnet.escape first <+: Telnet.escape second) :
    first <+: second := by
  induction first generalizing second with
  | nil => exact List.nil_prefix
  | cons b first ih =>
      rw [Telnet.escape_cons] at front
      cases second with
      | nil =>
          obtain ⟨later, same⟩ := front
          by_cases plain : b = IAC
          · simp [plain, Telnet.escape] at same
          · simp [plain, Telnet.escape] at same
      | cons other second =>
          rw [Telnet.escape_cons other] at front
          have same : b = other := by
            by_cases hb : b = IAC <;> by_cases hother : other = IAC <;>
              simp_all [Telnet.escape]
          subst same
          rw [List.prefix_append_right_inj] at front
          exact (List.prefix_cons_inj b).mpr (ih front)

theorem escape_injective : Function.Injective Telnet.escape := by
  intro first second same
  have hfirst : first <+: second :=
    prefix_of_escape (same.symm ▸ List.prefix_refl _)
  have hsecond : second <+: first :=
    prefix_of_escape (same.symm ▸ List.prefix_refl _)
  exact hfirst.eq_of_length_le hsecond.length_le

end RiscosBuilder.Build
