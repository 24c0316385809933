import RiscosBuilder.Agent.TypedCommands
import RiscosBuilder.Library.Trace

/-!
# The agent on a live connection

A `Socket` is a script: what its `recv` is going to return stands in it from the
start.  On a real connection the chunks come while `serve` takes its turns, and
a `recv` waits for the next of them.  Taking turns early or late makes no
difference: whatever the live agent has done so far the agent of the script does
as well, with any chunks behind those that have come.
-/

namespace RiscosBuilder.Agent

open RiscosBuilder.Library RiscosBuilder.Library.ByteString
open RiscosBuilder.Library.Packets

/-! ## More to come -/

namespace Telnet

/-- The channel with more chunks behind those that are to come, and an end. -/
def more (later : List Chunk) (ending : Ending) (chan : Telnet) : Telnet :=
  { chan with
    sock := { chan.sock with
      arrivals := chan.sock.arrivals ++ later
      ending } }

variable {chan : Telnet} (later : List Chunk) (ending : Ending)

@[simp] theorem more_buf : (chan.more later ending).buf = chan.buf :=
  rfl

@[simp] theorem more_eof : (chan.more later ending).eof = chan.eof :=
  rfl

theorem more_more (others : List Chunk) (other : Ending) :
    (chan.more later other).more others ending =
      chan.more (later ++ others) ending := by
  simp only [more, List.append_assoc]

/-- A chunk that has come is pulled, whatever comes behind it. -/
theorem fill_more {chunk : Chunk} {others : List Chunk}
    (harrivals : chan.sock.arrivals = chunk :: others) :
    (chan.more later ending).fill = chan.fill.more later ending := by
  obtain ⟨⟨arrivals, ended, sends, sent⟩, buf, raw, eof, undecodable⟩ := chan
  simp only at harrivals
  subst harrivals
  obtain ⟨data, nonempty⟩ := chunk
  cases data with
  | nil => exact absurd rfl nonempty
  | cons first data =>
      cases silent : (scan (raw ++ first :: data)).reply.isEmpty <;>
        simp [fill, more, Socket.recv, Socket.sendall, silent]

/-- Pulling that does not meet the end takes nothing of what comes later. -/
theorem fillWhile_more {short : List UInt8 → Bool} (running : chan.eof = false)
    (goes : (fillWhile short chan.fillBound chan).eof = false) :
    fillWhile short (chan.more later ending).fillBound
        (chan.more later ending) =
      (fillWhile short chan.fillBound chan).more later ending := by
  induction harrivals : chan.sock.arrivals generalizing chan with
  | nil =>
      cases needs : short chan.buf with
      | false =>
          rw [fillWhile_of_enough needs, fillWhile_of_enough (by exact needs)]
      | true =>
          have hended := (fill_ended harrivals).eof
          rw [fillBound, harrivals, List.length_nil, fillWhile, if_pos
            (by simp [needs, running]), fillWhile_of_eof hended] at goes
          exact absurd (goes.symm.trans hended) (by decide)
  | cons chunk others ih =>
      cases needs : short chan.buf with
      | false =>
          rw [fillWhile_of_enough needs, fillWhile_of_enough (by exact needs)]
      | true =>
          have filled := fill_filled harrivals
          have hothers : chan.fill.sock.arrivals = others := by
            have hsplit := filled.arrivals
            rw [harrivals, List.singleton_append, List.cons.injEq] at hsplit
            exact hsplit.2.symm
          have hmore : (chan.more later ending).sock.arrivals =
              chunk :: (others ++ later) := by
            rw [more, harrivals]
            rfl
          rw [fillWhile_of_short harrivals running needs] at goes ⊢
          rw [fillWhile_of_short hmore running (by exact needs),
            fill_more later ending harrivals]
          exact ih (filled.eof.trans running) goes hothers

theorem readLine_more (running : chan.eof = false)
    (goes : chan.readLine.2.eof = false) :
    (chan.more later ending).readLine =
      (chan.readLine.1, chan.readLine.2.more later ending) := by
  have hgoes : (fillWhile (fun buf => (splitLine buf).isNone) chan.fillBound
      chan).eof = false := by
    rw [readLine] at goes
    revert goes
    cases splitLine (fillWhile (fun buf => (splitLine buf).isNone)
      chan.fillBound chan).buf <;> exact id
  simp only [readLine, fillWhile_more later ending running hgoes, more_buf]
  cases splitLine (fillWhile (fun buf => (splitLine buf).isNone)
    chan.fillBound chan).buf <;> rfl

theorem read_more (running : chan.eof = false) {want : Nat}
    (goes : (chan.read want).2.eof = false) :
    (chan.more later ending).read want =
      ((chan.read want).1, (chan.read want).2.more later ending) := by
  simp only [read, fillWhile_more later ending running goes, more_buf]
  rfl

end Telnet

section More

variable {chan : Telnet} (later : List Chunk) (ending : Ending)

theorem runCommand_more (output : List (List UInt8)) :
    runCommand (chan.more later ending) output =
      (runCommand chan output).more later ending := by
  induction output generalizing chan with
  | nil => rfl
  | cons block output ih => exact @ih (chan.write block)

theorem runTar_more (running : chan.eof = false) {steps : List TarStep}
    (goes : (runTar steps chan).2.eof = false) :
    runTar steps (chan.more later ending) =
      ((runTar steps chan).1, (runTar steps chan).2.more later ending) := by
  induction steps generalizing chan with
  | nil => rfl
  | cons step steps ih =>
      cases step with
      | read want =>
          have hread : (chan.read want).2.eof = false := by
            cases hended : (chan.read want).2.eof with
            | false => rfl
            | true =>
                exact absurd (goes.symm.trans (runTar_of_eof hended steps))
                  (by decide)
          rw [runTar, Telnet.read_more later ending running hread]
          exact ih hread goes
      | member name =>
          rw [runTar, runTar, ih running goes]

/-- A read of the transfer runs into the end of what has come. -/
def Extraction.waits (chan : Telnet) : Extraction → Bool
  | .noDirectory => false
  | .tar steps _ => (runTar steps chan).2.eof

theorem doExtract_more (running : chan.eof = false) {extraction : Extraction}
    (enough : extraction.waits chan = false) :
    doExtract (chan.more later ending) extraction =
      ((doExtract chan extraction).1,
        (doExtract chan extraction).2.more later ending) := by
  match extraction with
  | .noDirectory => rfl
  | .tar steps true => exact runTar_more later ending running enough
  | .tar steps false =>
      rw [doExtract, runTar_more later ending running enough]
      rfl

/-- A `recv` of the turn has to wait for what has not come. -/
def waits (turn : Turn) (chan : Telnet) : Bool :=
  chan.readLine.2.eof ||
    match chan.readLine.1.bind fun line => parseTarCommand (strip line) with
    | some (.extract, _) => turn.extraction.waits chan.readLine.2
    | _ => false

/-- A turn that has not to wait is the same with more to come. -/
theorem serveTurn_more {turn : Turn} (running : chan.eof = false)
    (enough : waits turn chan = false) :
    serveTurn turn (chan.more later ending) =
      ⟨(serveTurn turn chan).events,
        (serveTurn turn chan).next.map (Telnet.more later ending)⟩ := by
  rw [waits, Bool.or_eq_false_iff] at enough
  obtain ⟨goes, enough⟩ := enough
  have hmore := Telnet.readLine_more later ending running goes
  cases hread : chan.readLine with
  | mk line read =>
      rw [hread] at goes enough hmore
      simp only [serveTurn, Telnet.more_eof, running, Bool.false_eq_true,
        if_false, hread, hmore]
      cases line with
      | none => rfl
      | some line =>
          simp only
          by_cases blank : strip line = []
          · simp only [if_pos blank, Option.map_some]
          · simp only [if_neg blank]
            cases hparse : parseTarCommand (strip line) with
            | none =>
                simp only [runCommand_more, Option.map_some]
            | some found =>
                obtain ⟨action, directory⟩ := found
                cases action with
                | create => rfl
                | extract =>
                    simp only [Option.bind_some, hparse] at enough
                    simp only [doExtract_more later ending goes enough,
                      Option.map_some]

end More

/-! ## The turns of the script -/

theorem serve_next (world : Nat → Turn) (turns : Nat) (chan : Telnet) :
    serve world (turns + 1) chan =
      (chan, (serveTurn (world 0) chan).events) ::
        ((serveTurn (world 0) chan).next.map
          (serve (fun n => world (n + 1)) turns)).getD [] := by
  rw [serve]
  cases (serveTurn (world 0) chan).next <;> rfl

/--
The agent of the script starts with `start`; its first turns do what stands in
the log, and it begins the next one with `chan`, if it has not left its loop.
-/
structure Scripted (world : Nat → Turn) (start : Telnet)
    (log : List (Turn × List Event)) (chan : Option Telnet) : Prop where
  events : (serve world log.length start).map Prod.snd = log.map Prod.snd
  next : (serve world (log.length + 1) start)[log.length]?.map Prod.fst = chan

theorem Scripted.start (world : Nat → Turn) (chan : Telnet) :
    Scripted world chan [] (some chan) :=
  ⟨rfl, rfl⟩

/-- The first turn, and what the agent does from then on. -/
theorem Scripted.uncons {world : Nat → Turn} {start : Telnet}
    {first : Turn × List Event} {log : List (Turn × List Event)}
    {chan : Option Telnet} (scripted : Scripted world start (first :: log) chan) :
    (serveTurn (world 0) start).events = first.2 ∧
      ((∃ after, (serveTurn (world 0) start).next = some after ∧
          Scripted (fun n => world (n + 1)) after log chan) ∨
        ((serveTurn (world 0) start).next = none ∧ log = [] ∧ chan = none)) := by
  have hevents := scripted.events
  have hnext := scripted.next
  rw [List.length_cons, serve_next, List.map_cons, List.map_cons,
    List.cons.injEq] at hevents
  rw [List.length_cons, serve_next, List.getElem?_cons_succ] at hnext
  refine ⟨hevents.1, ?_⟩
  cases hafter : (serveTurn (world 0) start).next with
  | none =>
      rw [hafter] at hevents hnext
      have hlog : log = [] := List.map_eq_nil_iff.mp hevents.2.symm
      exact Or.inr ⟨rfl, hlog, hnext.symm⟩
  | some after =>
      rw [hafter] at hevents hnext
      exact Or.inl ⟨after, rfl, hevents.2, hnext⟩

/-- One more turn of the agent of the script. -/
theorem Scripted.turn {world : Nat → Turn} {start chan : Telnet}
    {log : List (Turn × List Event)} {turn : Turn}
    (scripted : Scripted world start log (some chan))
    (same : world log.length = turn) :
    Scripted world start (log ++ [(turn, (serveTurn turn chan).events)])
      (serveTurn turn chan).next := by
  induction log generalizing world start with
  | nil =>
      obtain rfl : start = chan := Option.some.inj scripted.next
      obtain rfl : world 0 = turn := same
      constructor
      · rw [List.nil_append, List.length_singleton, serve_next]
        cases (serveTurn (world 0) start).next <;> rfl
      · rw [List.nil_append, List.length_singleton, serve_next,
          List.getElem?_cons_succ]
        cases (serveTurn (world 0) start).next <;> rfl
  | cons first log ih =>
      obtain ⟨hevents, ⟨after, hafter, hscripted⟩ | ⟨-, -, hnone⟩⟩ :=
        scripted.uncons
      · have hlater := @ih (fun n => world (n + 1)) after hscripted same
        constructor
        · rw [List.cons_append, List.length_cons, serve_next, hafter,
            List.map_cons, List.map_cons, hevents]
          exact congrArg _ hlater.events
        · rw [List.cons_append, List.length_cons, serve_next, hafter,
            List.getElem?_cons_succ]
          exact hlater.next
      · exact absurd hnone (Option.some_ne_none chan)

/-- What stands in the log comes first, and is all once the loop is left. -/
theorem Scripted.front {world : Nat → Turn} {start : Telnet}
    {log : List (Turn × List Event)} {chan : Option Telnet}
    (scripted : Scripted world start log chan) {turns : Nat}
    (enough : log.length ≤ turns) :
    log.map Prod.snd <+: (serve world turns start).map Prod.snd ∧
      (chan = none → (serve world turns start).map Prod.snd =
        log.map Prod.snd) := by
  induction log generalizing world start turns with
  | nil =>
      refine ⟨List.nil_prefix, fun none => ?_⟩
      exact absurd (scripted.next.trans none) (Option.some_ne_none start)
  | cons first log ih =>
      obtain ⟨turns, rfl⟩ := Nat.exists_eq_add_of_le' enough
      obtain ⟨hevents, hlater⟩ := scripted.uncons
      rw [List.length_cons, ← Nat.add_assoc, serve_next, List.map_cons,
        List.map_cons, hevents]
      rcases hlater with ⟨after, hafter, hscripted⟩ | ⟨hafter, rfl, -⟩
      · obtain ⟨hfront, hall⟩ := ih hscripted (Nat.le_add_left _ turns)
        rw [hafter]
        exact ⟨(List.prefix_cons_inj _).mpr hfront, fun none =>
          congrArg _ (hall none)⟩
      · rw [hafter]
        exact ⟨List.prefix_refl _, fun _ => rfl⟩

/-! ## The live agent -/

/--
The agent while chunks come.  `chan` is gone once the loop is left, and `ended`
says how the stream has ended.  In the log are the turns taken so far.
-/
structure Live where
  chan : Option Telnet
  arrived : List Chunk
  ended : Option Ending
  log : List (Turn × List Event)

/-- A chunk comes, or the end of the stream, or the agent takes a turn. -/
inductive Input where
  | chunk (chunk : Chunk)
  | ends (ending : Ending)
  | turn (turn : Turn)

/-- What comes of an input; a turn that has to wait is not taken. -/
def Live.next (live : Live) : Input → Option Live
  | .chunk chunk =>
      if live.ended.isSome then none
      else some { live with
        arrived := live.arrived ++ [chunk]
        chan := live.chan.map (Telnet.more [chunk] .closed) }
  | .ends ending =>
      if live.ended.isSome then none
      else some { live with
        ended := some ending
        chan := live.chan.map (Telnet.more [] ending) }
  | .turn turn =>
      live.chan.bind fun chan =>
        if chan.eof || live.ended.isSome || !waits turn chan then
          some { live with
            chan := (serveTurn turn chan).next
            log := live.log ++ [(turn, (serveTurn turn chan).events)] }
        else none

def Live.Step (live : Live) (input : Input) (after : Live) : Prop :=
  live.next input = some after

/-- The connection has just been accepted. -/
def Live.opened (sends : List Bool) : Live where
  chan := some (Telnet.opened [] .closed sends)
  arrived := []
  ended := none
  log := []

/-- What the outside contributes to the turns is what it has contributed. -/
def Agrees (world : Nat → Turn) (log : List (Turn × List Event)) : Prop :=
  ∀ n turn events, log[n]? = some (turn, events) → world n = turn

theorem agrees_append {world : Nat → Turn} {log : List (Turn × List Event)}
    {turn : Turn} {events : List Event}
    (agrees : Agrees world (log ++ [(turn, events)])) :
    Agrees world log ∧ world log.length = turn := by
  constructor
  · intro n other others hlog
    exact agrees n other others (List.getElem?_append_left
      (List.getElem?_eq_some_iff.mp hlog).1 ▸ hlog)
  · exact agrees log.length turn events (by simp)

/-- What the live agent has done is what the agent of the script does. -/
structure Follows (sends : List Bool) (live : Live) : Prop where
  coming : live.ended = none → ∀ later ending world, Agrees world live.log →
    Scripted world (Telnet.opened (live.arrived ++ later) ending sends)
      live.log (live.chan.map (Telnet.more later ending))
  whole : ∀ ending, live.ended = some ending → ∀ world,
    Agrees world live.log →
      Scripted world (Telnet.opened live.arrived ending sends) live.log
        live.chan

theorem Follows.step {sends : List Bool} {live after : Live} {input : Input}
    (follows : Follows sends live) (steps : live.Step input after) :
    Follows sends after := by
  unfold Live.Step at steps
  cases input with
  | chunk chunk =>
      rw [Live.next, Option.ite_none_left_eq_some] at steps
      obtain ⟨running, rfl⟩ := steps.imp id Option.some.inj
      have hnone : live.ended = none := by simpa using running
      refine ⟨fun _ later ending world agrees => ?_, fun ending some => ?_⟩
      · have hmore := follows.coming hnone (chunk :: later) ending world agrees
        rw [List.append_assoc, List.singleton_append, Option.map_map]
        convert hmore using 2
        funext chan
        exact Telnet.more_more [chunk] ending later .closed
      · exact absurd (hnone.symm.trans some) (by simp)
  | ends ending =>
      rw [Live.next, Option.ite_none_left_eq_some] at steps
      obtain ⟨running, rfl⟩ := steps.imp id Option.some.inj
      have hnone : live.ended = none := by simpa using running
      refine ⟨fun none => by simp at none, fun other same world agrees => ?_⟩
      obtain rfl : ending = other := Option.some.inj same
      have hmore := follows.coming hnone [] ending world agrees
      rwa [List.append_nil] at hmore
  | turn turn =>
      rw [Live.next, Option.bind_eq_some_iff] at steps
      obtain ⟨chan, serves, steps⟩ := steps
      rw [Option.ite_none_right_eq_some] at steps
      obtain ⟨goes, rfl⟩ := steps.imp id Option.some.inj
      refine ⟨fun hnone later ending world agrees => ?_,
        fun ending some world agrees => ?_⟩
      · obtain ⟨hlog, same⟩ := agrees_append agrees
        have hscripted := follows.coming hnone later ending world hlog
        rw [serves] at hscripted
        have hturn := hscripted.turn same
        have hmore : serveTurn turn (chan.more later ending) =
            ⟨(serveTurn turn chan).events,
              (serveTurn turn chan).next.map (Telnet.more later ending)⟩ := by
          cases heof : chan.eof with
          | true =>
              rw [serveTurn_of_eof heof, serveTurn_of_eof (by exact heof)]
              rfl
          | false =>
              have hlive : live.ended = none := hnone
              apply serveTurn_more later ending heof
              simpa [heof, hlive] using goes
        rwa [hmore] at hturn
      · obtain ⟨hlog, same⟩ := agrees_append agrees
        have hscripted := follows.whole ending some world hlog
        rw [serves] at hscripted
        exact hscripted.turn same

theorem Follows.of_trace {sends : List Bool} {inputs : List Input} {live : Live}
    (trace : Trace Live.Step (Live.opened sends) inputs live) :
    Follows sends live := by
  refine trace.invariant (P := fun _ live => Follows sends live) ?_
    fun _ _ _ _ follows steps => follows.step steps
  constructor
  · intro _ later ending world _
    exact Scripted.start world (Telnet.opened later ending sends)
  · intro ending some
    exact absurd some (by simp [Live.opened])

/--
The order in which chunks and turns come makes no difference.  The live agent
has done what the agent of every script does first that goes on from what has
come, or is all that has come if the stream has ended; and once it has left its
loop that is all that the agent of the script does.
-/
theorem live_scripted {sends : List Bool} {inputs : List Input} {live : Live}
    (trace : Trace Live.Step (Live.opened sends) inputs live)
    {later : List Chunk} {ending : Ending}
    (goesOn : live.ended = none ∨ live.ended = some ending ∧ later = [])
    {world : Nat → Turn} (agrees : Agrees world live.log) {turns : Nat}
    (enough : live.log.length ≤ turns) :
    live.log.map Prod.snd <+: (serve world turns
        (Telnet.opened (live.arrived ++ later) ending sends)).map Prod.snd ∧
      (live.chan = none → (serve world turns
        (Telnet.opened (live.arrived ++ later) ending sends)).map Prod.snd =
          live.log.map Prod.snd) := by
  have follows := Follows.of_trace trace
  rcases goesOn with none | ⟨ended, rfl⟩
  · have hfront := (follows.coming none later ending world agrees).front enough
    exact ⟨hfront.1, fun left => hfront.2 (by rw [left, Option.map_none])⟩
  · rw [List.append_nil]
    exact (follows.whole ending ended world agrees).front enough

/-- Of two commands the first is run before the second has come whole. -/
def shortInputs : List Input :=
  [.chunk ⟨[0x64, CR], by decide⟩, .turn ⟨[[0x63]], .noDirectory⟩,
    .chunk ⟨[LF, 0x62], by decide⟩, .turn ⟨[], .noDirectory⟩]

/-- The script goes on with the end of the second command. -/
theorem live_scripted_short : [[.ran [0x64]], []] <+: (serve
    (fun n => ⟨[[0x63]].drop n, .noDirectory⟩) 3
      (Telnet.opened [⟨[0x64, CR], by decide⟩, ⟨[LF, 0x62], by decide⟩,
        ⟨[CR, LF], by decide⟩] .broken [])).map Prod.snd := by
  have hruns : (shortInputs.foldlM Live.next (Live.opened [])).map
      (fun live => (live.ended, live.arrived, live.log)) =
        some (none, [⟨[0x64, CR], by decide⟩, ⟨[LF, 0x62], by decide⟩],
          [(⟨[[0x63]], .noDirectory⟩, [.ran [0x64]]),
            (⟨[], .noDirectory⟩, [])]) := by
    rfl
  obtain ⟨live, hlive, same⟩ := Option.map_eq_some_iff.mp hruns
  rw [Prod.mk.injEq, Prod.mk.injEq] at same
  obtain ⟨hended, harrived, hlog⟩ := same
  have agrees : Agrees (fun n => ⟨[[0x63]].drop n, .noDirectory⟩) live.log := by
    rw [hlog]
    intro n turn events found
    rcases n with - | - | n
    · exact congrArg Prod.fst (Option.some.inj found)
    · exact congrArg Prod.fst (Option.some.inj found)
    · simp at found
  have hfront := (@live_scripted [] shortInputs live (Trace.of_foldlM hlive)
    [⟨[CR, LF], by decide⟩] .broken (Or.inl hended) _ agrees 3
      (by rw [hlog]; decide)).1
  rwa [hlog, harrived] at hfront

end RiscosBuilder.Agent
