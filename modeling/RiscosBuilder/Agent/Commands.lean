import RiscosBuilder.Agent.PlainChannel
import RiscosBuilder.Agent.PushFailure

/-!
# The commands of a session

The lines with which `serve` calls `run_command`.  They are taken from what has
been received, one after the other, and to run one reads nothing more.
-/

namespace RiscosBuilder.Agent

open RiscosBuilder.Library RiscosBuilder.Library.ByteString
open RiscosBuilder.Library.Packets

/-! ## What is run was received -/

/-- The line of a call of `run_command`. -/
def Event.command : Event → Option (List UInt8)
  | .ran line => some line
  | .pushed _ _ => none
  | .pulled _ => none

/-- The calls of `run_command` among some events. -/
def commandsOf (events : List Event) : List (List UInt8) :=
  events.filterMap Event.command

/-- The calls of `run_command` that `serve` makes in its first turns. -/
def commands (world : Nat → Turn) (turns : Nat) (chan : Telnet) :
    List (List UInt8) :=
  (serve world turns chan).flatMap fun turn => commandsOf turn.2

theorem commands_succ (world : Nat → Turn) (turns : Nat) (chan : Telnet) :
    commands world (turns + 1) chan =
      commandsOf (serveTurn (world 0) chan).events ++
        ((serveTurn (world 0) chan).next.map
          (commands (fun n => world (n + 1)) turns)).getD [] := by
  rw [commands, serve, List.flatMap_cons]
  cases (serveTurn (world 0) chan).next with
  | none => rfl
  | some next => rfl

theorem commands_of_eof {chan : Telnet} (ended : chan.eof = true)
    (world : Nat → Turn) (turns : Nat) : commands world turns chan = [] := by
  cases turns with
  | zero => rfl
  | succ turns =>
      rw [commands_succ, serveTurn_of_eof ended]
      rfl

theorem Telnet.splitLine_sublist {buf line rest : List UInt8}
    (split : splitLine buf = some (line, rest)) : (line ++ rest).Sublist buf := by
  unfold splitLine at split
  cases hpos : (find buf LF).or (find buf CR) with
  | none => simp [hpos] at split
  | some pos =>
      rw [hpos] at split
      obtain ⟨rfl, rfl⟩ := Prod.mk.inj (Option.some.inj split)
      have hline : (rstripCR (buf.take pos)).Sublist (buf.take pos) :=
        (List.rdropWhile_prefix _ _).sublist
      have hrest : (dropTerminator (buf.drop (pos + 1))).Sublist
          (buf.drop pos) := by
        rw [← List.drop_drop]
        exact ((dropTerminator_suffix _).trans (List.drop_suffix _ _)).sublist
      simpa using hline.append hrest

/-- A line and what is left are found in the payload, the one behind the other. -/
theorem Telnet.readLine_sublist {chan : Telnet} {line : List UInt8}
    (read : chan.readLine.1 = some line) :
    (line ++ chan.readLine.2.payload).Sublist chan.payload := by
  have hpayload := fillWhile_payload (fun buf => (splitLine buf).isNone)
    chan.fillBound chan
  have hstop := fillWhile_stops (fun buf => (splitLine buf).isNone) chan
  revert read
  unfold readLine
  generalize fillWhile _ _ chan = after at hpayload hstop
  rw [← hpayload]
  cases hsplit : splitLine after.buf with
  | some found =>
      obtain ⟨first, rest⟩ := found
      simp only [hsplit, payload_with_buf, Option.some.injEq]
      rintro rfl
      rw [← List.append_assoc]
      exact (splitLine_sublist hsplit).append_right _
  | none =>
      have hended : after.eof = true := by
        simpa [hsplit] using hstop
      simp only [hsplit, payload_with_buf]
      split
      · simp
      · simp only [Option.some.injEq]
        rintro rfl
        simp [payload, upcoming, hended]

/-- One turn runs a line that it takes off the payload, if it runs any. -/
theorem serveTurn_sublist {turn : Turn} {chan : Telnet} :
    (commandsOf (serveTurn turn chan).events).flatten.Sublist chan.payload ∧
      ∀ after, (serveTurn turn chan).next = some after →
        after.eof = true ∨
          ((commandsOf (serveTurn turn chan).events).flatten ++
            after.payload).Sublist chan.payload := by
  unfold serveTurn
  split
  · exact ⟨List.nil_sublist _, by simp⟩
  · next running =>
    split
    · exact ⟨List.nil_sublist _, by simp⟩
    · next line read hread =>
      have hline : (line ++ read.payload).Sublist chan.payload := by
        have hfound := @Telnet.readLine_sublist chan line (by rw [hread])
        rwa [hread] at hfound
      have hread : read.payload.Sublist chan.payload :=
        (List.sublist_append_right _ _).trans hline
      split
      · refine ⟨List.nil_sublist _, fun after hafter => Or.inr ?_⟩
        rw [Option.some.injEq] at hafter
        exact hafter ▸ hread
      · have hstripped : (strip line ++ read.payload).Sublist chan.payload :=
          ((strip_sublist line).append_right _).trans hline
        split
        · constructor
          · simpa [commandsOf, Event.command] using
              (List.sublist_append_left _ _).trans hstripped
          · intro after hafter
            rw [Option.some.injEq] at hafter
            subst hafter
            refine (runCommand_payload read turn.output).imp id fun same => ?_
            simpa [commandsOf, Event.command, same] using hstripped
        · refine ⟨List.nil_sublist _, fun after hafter => ?_⟩
          rw [Option.some.injEq] at hafter
          subst hafter
          exact (doExtract_payload read turn.extraction).imp id fun suffix =>
            suffix.sublist.trans hread
        · exact ⟨List.nil_sublist _, by simp⟩

/-- The lines that are run are found in the payload, one behind the other. -/
theorem commands_sublist (world : Nat → Turn) (turns : Nat) (chan : Telnet) :
    (commands world turns chan).flatten.Sublist chan.payload := by
  induction turns generalizing world chan with
  | zero => exact List.nil_sublist _
  | succ turns ih =>
      obtain ⟨hevents, hnext⟩ := @serveTurn_sublist (world 0) chan
      rw [commands_succ, List.flatten_append]
      cases next : (serveTurn (world 0) chan).next with
      | none => simpa using hevents
      | some after =>
          rcases hnext after next with ended | hsublist
          · simpa [commands_of_eof ended] using hevents
          · exact ((ih _ after).append_left _).trans hsublist

/-! ## One line after the other -/

/-- Every `sendall` still to come returns. -/
def Telnet.Answers (chan : Telnet) : Prop :=
  ∀ ok ∈ chan.sock.sends, ok = true

/-- `run_command` reads nothing, and what it sends may end the session. -/
theorem runCommand_reads_nothing (chan : Telnet) (output : List (List UInt8)) :
    (runCommand chan output).packets = chan.packets ∧
      (chan.Plain → (runCommand chan output).eof = false →
        (runCommand chan output).Plain) ∧
      (chan.Answers → (runCommand chan output).Answers ∧
        (runCommand chan output).eof = chan.eof) := by
  induction output generalizing chan with
  | nil => exact ⟨rfl, fun plain _ => plain, fun answers => ⟨answers, rfl⟩⟩
  | cons block output ih =>
      obtain ⟨hpackets, hplain, hanswers⟩ := ih (chan.write block)
      refine ⟨hpackets, fun plain running => ?_, fun answers => ?_⟩
      · refine hplain ⟨?_, plain.decoded, plain.clean⟩ running
        cases heof : (chan.write block).eof with
        | false => rfl
        | true =>
            have hended := runCommand_of_eof heof output
            exact absurd (running.symm.trans hended) (by decide)
      · have hok : chan.sock.sends.headD true = true := by
          cases hsends : chan.sock.sends with
          | nil => rfl
          | cons ok sends => exact answers ok (by simp [hsends])
        have hlater : (chan.write block).Answers := fun ok member =>
          answers ok (List.mem_of_mem_tail member)
        have heof : (chan.write block).eof = chan.eof := by
          simp only [Telnet.write, Socket.sendall, hok, Bool.not_true,
            Bool.or_false]
        exact heof ▸ hanswers hlater

section Turn

variable {turn : Turn} {chan read : Telnet} {line : List UInt8}

theorem serveTurn_command (running : chan.eof = false)
    (hread : chan.readLine = (some line, read)) (nonblank : strip line ≠ [])
    (command : parseTarCommand (strip line) = none) :
    serveTurn turn chan =
      ⟨[.ran (strip line)], some (runCommand read turn.output)⟩ := by
  simp [serveTurn, running, hread, nonblank, command]

theorem serveTurn_blank (running : chan.eof = false)
    (hread : chan.readLine = (some line, read)) (blank : strip line = []) :
    serveTurn turn chan = ⟨[], some read⟩ := by
  simp [serveTurn, running, hread, blank]

end Turn

theorem commands_of_next {world : Nat → Turn} {chan after : Telnet}
    {events : List Event} (turn : serveTurn (world 0) chan = ⟨events, some after⟩)
    (turns : Nat) :
    commands world (turns + 1) chan =
      commandsOf events ++ commands (fun n => world (n + 1)) turns after := by
  rw [commands_succ, turn]
  rfl

/-- Further turns add commands at the end. -/
theorem commands_prefix_succ (world : Nat → Turn) (turns : Nat)
    (chan : Telnet) : commands world turns chan <+: commands world (turns + 1) chan := by
  induction turns generalizing world chan with
  | zero => exact List.nil_prefix
  | succ turns ih =>
      rw [commands_succ, commands_succ]
      apply (List.prefix_append_right_inj _).mpr
      cases (serveTurn (world 0) chan).next with
      | none => exact List.prefix_refl _
      | some after => exact ih _ after

theorem commands_prefix_add (world : Nat → Turn) (turns more : Nat)
    (chan : Telnet) :
    commands world turns chan <+: commands world (turns + more) chan := by
  induction more with
  | zero => exact List.prefix_refl _
  | succ more ih =>
      exact ih.trans (commands_prefix_succ world (turns + more) chan)

/-- In the end `serve` has called `run_command` with these lines. -/
def Runs (world : Nat → Turn) (chan : Telnet) (lines : List (List UInt8)) :
    Prop :=
  ∃ enough, ∀ turns, enough ≤ turns → commands world turns chan = lines

/-- A line that is dispatched; `after` is the channel behind it. -/
structure Dispatched (world : Nat → Turn) (chan : Telnet) (text : List UInt8)
    (after : Telnet) : Prop where
  answers : chan.Answers → after.Answers ∧ after.eof = false
  turns : ∃ count later, ∀ turns,
    commands world (turns + count) chan = text :: commands later turns after

theorem Dispatched.runs_iff {world : Nat → Turn} {chan after : Telnet}
    {text : List UInt8} (dispatched : Dispatched world chan text after) :
    ∃ later, ∀ lines,
      Runs world chan (text :: lines) ↔ Runs later after lines := by
  obtain ⟨count, later, hturns⟩ := dispatched.turns
  refine ⟨later, fun lines => ⟨?_, ?_⟩⟩
  · rintro ⟨enough, hall⟩
    refine ⟨enough, fun turns hle => ?_⟩
    have hlines := hall (turns + count) (by omega)
    rw [hturns, List.cons.injEq] at hlines
    exact hlines.2
  · rintro ⟨enough, hall⟩
    refine ⟨enough + count, fun turns hle => ?_⟩
    have hlines := hturns (turns - count)
    rwa [Nat.sub_add_cancel (by omega), hall _ (by omega)] at hlines

theorem Dispatched.prefix_of {world : Nat → Turn} {chan after : Telnet}
    {text : List UInt8} {lines : List (List UInt8)}
    (dispatched : Dispatched world chan text after)
    (front : ∀ later turns, commands later turns after <+: lines)
    (turns : Nat) : commands world turns chan <+: text :: lines := by
  obtain ⟨count, later, hturns⟩ := dispatched.turns
  refine (commands_prefix_add world turns count chan).trans ?_
  rw [hturns]
  exact (List.prefix_cons_inj text).mpr (front later turns)

end RiscosBuilder.Agent
