import RiscosBuilder.Build.Coherence
import Mathlib.Data.List.Infix

/-!
# The conversation of the builder and the agent

What `telnet_exec` returns was printed by the commands that it has sent, each of
which the agent runs once and in order; and nothing keeps the two from getting
all of it through.
-/

namespace RiscosBuilder.Build

open RiscosBuilder.Agent RiscosBuilder.Library RiscosBuilder.Library.ByteString

/-! ## What the two can rely on -/

/-- All that was sent has come to the agent, and it has nothing to do. -/
def Talk.Settled (talk : Talk) : Prop :=
  talk.outbound.waiting = [] ∧
    ∀ chan, talk.chan = some chan → ¬ chan.Goes talk.cut

/--
The agent has run some of the commands from the first on, and once its stream
was cut off inside the line after these perhaps the front of that.
-/
def Talk.Ran (talk : Talk) (tried : List CommandLine) : Prop :=
  talk.log.map Prod.fst <+: tried.map CommandLine.text ∨
    (talk.cut = true ∧ ∃ done line part, done ++ [line] <+: tried ∧
      part <+: line.text ∧ talk.log.map Prod.fst =
        done.map CommandLine.text ++ [strip part])

theorem Talk.Ran.length_le {talk : Talk} {tried : List CommandLine}
    (ran : talk.Ran tried) : talk.log.length ≤ tried.length := by
  rcases ran with whole | ⟨-, done, line, part, sent, -, same⟩
  · simpa using whole.length_le
  · have hlength := congrArg List.length same
    have hsent := sent.length_le
    simp only [List.length_map, List.length_append, List.length_cons,
      List.length_nil] at hlength hsent
    omega

/-- The front of a line is empty when the whole line is still to come. -/
theorem part_eq_nil {part more : List UInt8} {lines : List CommandLine}
    (front : part <+: headText lines)
    (awaits : Awaits (part ++ (more ++ script lines)) lines) : part = [] := by
  rcases awaits with same | same
  · rw [← List.append_assoc, List.append_left_eq_self] at same
    exact (List.append_eq_nil_iff.mp same).1
  · rw [← List.append_assoc, ← List.singleton_append,
      List.append_left_inj] at same
    cases part with
    | nil => rfl
    | cons first part =>
        rw [List.cons_append, List.cons.injEq] at same
        have member : LF ∈ headText lines := front.subset (by simp [same.1])
        exact absurd member (headText_unterminated lines).2

section Coherent

variable {cmds tried done waiting : List CommandLine} {sends : List Bool}
  {unsaid : List UInt8} {before : List (List UInt8 × List UInt8)}
  {talk : Talk}

theorem Followed.awaits {future : List UInt8}
    (followed : Followed sends done waiting future talk) :
    ∃ come, Awaits (come ++ future) waiting := by
  cases followed with
  | serving chan _ _ awaits _ _ => exact ⟨_, awaits⟩
  | failed _ _ come awaits _ => exact ⟨come, awaits⟩
  | ended _ _ part _ awaits _ => exact ⟨part, awaits⟩

namespace Coherent

variable
  (coherent : Coherent cmds sends tried done waiting unsaid before talk)

include coherent

theorem lengths : done.length + waiting.length =
    tried.length + talk.exec.cmds.length := by
  have hlength := congrArg List.length
    (coherent.order.symm.trans coherent.spoken.commands)
  simpa using hlength

/-- A line is run when it has been sent, and not before. -/
theorem later_length_le : talk.exec.cmds.length ≤ waiting.length := by
  obtain ⟨come, awaits⟩ := coherent.followed.awaits
  have hcount := coherent.spoken.later.sublist.count_le CR
  rw [count_CR_script] at hcount
  rw [← awaits.count_CR, List.count_append, List.count_append]
  omega

theorem prefix_tried {some : List CommandLine} (front : some <+: cmds)
    (short : some.length ≤ tried.length) : some <+: tried :=
  List.prefix_of_prefix_length_le front
    (coherent.spoken.commands ▸ List.prefix_append _ _) short

/-- Of a line that has been run in part some bytes have been sent. -/
theorem part_sent {part : List UInt8} (front : part <+: headText waiting)
    (awaits : Awaits (part ++ (talk.outbound.waiting ++ unsaid)) waiting)
    (some : part ≠ []) : ∃ line, part <+: line.text ∧ done ++ [line] <+: tried := by
  have hle := coherent.later_length_le
  have hlengths := coherent.lengths
  have hlt : talk.exec.cmds.length ≠ waiting.length := by
    intro same
    have hwaiting : waiting = talk.exec.cmds := (List.append_inj'
      (coherent.order.symm.trans coherent.spoken.commands) same.symm).2
    obtain ⟨more, hmore⟩ := coherent.spoken.later
    have hfuture : talk.outbound.waiting ++ unsaid =
        (talk.outbound.waiting ++ more) ++ script waiting := by
      rw [← hmore, hwaiting, List.append_assoc]
    exact some (part_eq_nil front (hfuture ▸ awaits))
  cases waiting with
  | nil => exact absurd (Nat.le_zero.mp hle) hlt
  | cons line later =>
      refine ⟨line, front, coherent.prefix_tried ⟨later, ?_⟩ ?_⟩
      · rw [coherent.order, List.append_assoc, List.singleton_append]
      · simp only [List.length_append, List.length_cons, List.length_nil]
          at hle hlt hlengths ⊢
        omega

theorem ran : talk.Ran tried := by
  have hdone : done <+: tried := coherent.prefix_tried
    (coherent.order ▸ List.prefix_append _ _) (by
      have hle := coherent.later_length_le
      have hlengths := coherent.lengths
      omega)
  cases coherent.followed with
  | serving _ _ _ _ _ ran => exact Or.inl (ran ▸ hdone.map _)
  | failed _ _ _ _ ran => exact Or.inl (ran ▸ hdone.map _)
  | ended _ cut part front awaits ran =>
      rcases ran with ran | ⟨nonblank, ran⟩
      · exact Or.inl (ran ▸ hdone.map _)
      · have hpart : part ≠ [] := by
          rintro rfl
          exact nonblank rfl
        obtain ⟨line, hline, hsent⟩ := coherent.part_sent front awaits hpart
        exact Or.inr ⟨cut, done, line, part, hsent, hline, ran⟩

theorem heard : ∃ before, before <+: talk.log ∧
    before.map Prod.fst <+: tried.map CommandLine.text ∧
    talk.exec.out <+: before.flatMap Prod.snd := by
  refine ⟨before, coherent.voiced.front, ?_, ?_⟩
  · refine List.prefix_of_prefix_length_le coherent.voiced.order
      ((coherent.spoken.commands ▸ List.prefix_append _ _ :
        tried <+: cmds).map _) ?_
    have hfront := coherent.voiced.front.length_le
    have hlog := coherent.ran.length_le
    simp only [List.length_map]
    omega
  · apply prefix_of_escape
    rw [← coherent.voiced.read, ← coherent.voiced.bytes]
    exact talk.inbound.arrived_prefix

/-- Once all that was sent has come, no part of a line is left. -/
theorem tried_of_part {part : List UInt8} (front : part <+: headText waiting)
    (awaits : Awaits (part ++ script talk.exec.cmds) waiting) :
    done = tried ∧ part = [] := by
  have hpart : part.count CR = 0 := List.count_eq_zero.mpr fun member =>
    (headText_unterminated waiting).1 (front.subset member)
  have hcount := awaits.count_CR
  rw [List.count_append, hpart, count_CR_script, Nat.zero_add] at hcount
  obtain ⟨hdone, hwaiting⟩ := List.append_inj'
    (coherent.order.symm.trans coherent.spoken.commands) hcount.symm
  rw [← hwaiting] at awaits
  exact ⟨hdone, @part_eq_nil part [] waiting front awaits⟩

/-- Every command that was sent has been run when the agent has nothing to do. -/
theorem ran_of_settled (all : ∀ ok ∈ sends, ok = true)
    (unbroken : talk.exec.alive ≠ some false) (settled : talk.Settled) :
    talk.log.map Prod.fst = tried.map CommandLine.text := by
  obtain ⟨through, idle⟩ := settled
  have followed := coherent.followed
  rw [through, List.nil_append, coherent.spoken.whole unbroken] at followed
  cases followed with
  | failed _ raises _ _ _ => exact absurd all raises
  | ended _ _ part front awaits ran =>
      obtain ⟨rfl, rfl⟩ := coherent.tried_of_part front awaits
      exact ran.resolve_right fun both => both.1 rfl
  | serving chan serves plain awaits _ ran =>
      have stays : chan.readLine.2.eof ≠ false := fun goes =>
        idle chan serves (Or.inr (Or.inr goes))
      cases awaits.come with
      | part front hawaits =>
          rw [← (coherent.tried_of_part front hawaits).1]
          exact ran
      | feed tail split htail =>
          exact absurd (@turn_of_feed ⟨[], .noDirectory⟩ _ _ _ _ plain split
            htail).1 stays
      | line tail split htail =>
          exact absurd (@turn_of_line ⟨[], .noDirectory⟩ _ _ _ _ _ plain split
            htail).1 stays

theorem out_of_heard (runs : talk.cut = false)
    (through : talk.inbound.waiting = []) :
    talk.exec.out = talk.log.flatMap Prod.snd := by
  apply escape_injective
  rw [← coherent.voiced.read, Pipe.arrived_eq_sent through,
    coherent.voiced.bytes, coherent.voiced.all runs]

end Coherent

end Coherent

/--
What holds between the two.  `tried` are the commands that were handed to
`sendall`; what the builder has read was printed by such as have been run whole.
When all is through they have all been run, and it was all that they printed.
-/
structure Faithful (cmds tried : List CommandLine) (sends : List Bool)
    (talk : Talk) : Prop where
  sent : cmds = tried ++ talk.exec.cmds
  last : talk.exec.alive = some true → tried = cmds
  ran : talk.Ran tried
  heard : ∃ before, before <+: talk.log ∧
    before.map Prod.fst <+: tried.map CommandLine.text ∧
    talk.exec.out <+: before.flatMap Prod.snd
  settled : (∀ ok ∈ sends, ok = true) → talk.exec.alive ≠ some false →
    talk.Settled → talk.log.map Prod.fst = tried.map CommandLine.text ∧
      (talk.cut = false → talk.inbound.waiting = [] →
        talk.exec.out = talk.log.flatMap Prod.snd)

/--
Whatever the commands print, however the bytes come through and whenever the
windows pass or the connection breaks: as long as no `recv` of the builder ends
inside a doubled `IAC`, the two parties keep faith.
-/
theorem conversation {cmds : List CommandLine} {sends : List Bool}
    {events : List Happening} {talk : Talk}
    (trace : Trace Talk.Step (Talk.opened cmds sends) events talk)
    (entire : ∀ event ∈ events, Entire event) :
    ∃ tried, Faithful cmds tried sends talk := by
  obtain ⟨tried, done, waiting, unsaid, before, coherent⟩ :=
    coheres_of_trace trace entire
  refine ⟨tried, coherent.spoken.commands, fun alive => ?_, coherent.ran,
    coherent.heard, fun all unbroken settled =>
      ⟨coherent.ran_of_settled all unbroken settled, coherent.out_of_heard⟩⟩
  rw [coherent.spoken.commands, coherent.spoken.last alive, List.append_nil]

/-- The CR LF is cut; the output, an `IAC` among it, comes in two packets. -/
def shortTalk : List Happening :=
  [.passed, .reached ⟨[0x61, CR], by decide⟩,
    .turn ⟨[[0x62, IAC], [0x63]], .noDirectory⟩,
    .reached ⟨[LF], by decide⟩, .heard ⟨[0x62, IAC, IAC], by decide⟩,
    .turn ⟨[], .noDirectory⟩, .heard ⟨[0x63], by decide⟩, .passed]

theorem shortTalk_entire : ∀ event ∈ shortTalk, Entire event := by
  intro event member
  simp only [shortTalk, List.mem_cons, List.not_mem_nil, or_false] at member
  rcases member with rfl | rfl | rfl | rfl | rfl | rfl | rfl | rfl
  case inr.inr.inr.inr.inl => exact ⟨[0x62, IAC], rfl⟩
  case inr.inr.inr.inr.inr.inr.inl => exact ⟨[0x63], rfl⟩
  all_goals exact trivial

theorem shortTalk_runs : ∃ talk,
    Trace Talk.Step (Talk.opened [commandA] []) shortTalk talk ∧
      talk.exec.alive = some true ∧ talk.exec.out = [0x62, IAC, 0x63] := by
  have hruns : (shortTalk.foldlM Talk.next (Talk.opened [commandA] [])).map
      (fun talk => (talk.exec.alive, talk.exec.out)) =
        some (some true, [0x62, IAC, 0x63]) := by
    decide
  obtain ⟨talk, htalk, same⟩ := Option.map_eq_some_iff.mp hruns
  exact ⟨talk, Trace.of_foldlM htalk, congrArg Prod.fst same,
    congrArg Prod.snd same⟩

theorem conversation_short : ∃ talk tried,
    talk.exec.alive = some true ∧ talk.exec.out = [0x62, IAC, 0x63] ∧
      Faithful [commandA] tried [] talk := by
  obtain ⟨talk, trace, alive, hout⟩ := shortTalk_runs
  obtain ⟨tried, faithful⟩ := conversation trace shortTalk_entire
  exact ⟨talk, tried, alive, hout, faithful⟩

/-! ## Nothing is waited for in vain -/

/-- A packet comes through, to one of the two. -/
def Delivery : Happening → Prop
  | .heard _ => True
  | .reached _ => True
  | _ => False

/-- So many turns of the agent; what they print is given. -/
def turns (world : Nat → Turn) (count : Nat) : List Happening :=
  (List.range count).map fun n => .turn (world n)

theorem turns_succ (world : Nat → Turn) (count : Nat) :
    turns world (count + 1) =
      [.turn (world 0)] ++ turns (fun n => world (n + 1)) count := by
  simp [turns, List.range_succ_eq_map, Function.comp_def]

section Completes

variable {cmds : List CommandLine} {sends : List Bool} {talk : Talk}

/-- All that the builder has sent comes to the agent. -/
theorem Coheres.reaches (coheres : Coheres cmds sends talk)
    (runs : talk.cut = false) :
    ∃ first after, (∀ event ∈ first, Delivery event) ∧
      Trace Talk.Step talk first after ∧ Coheres cmds sends after ∧
      after.outbound.waiting = [] ∧ after.cut = false ∧
      after.exec = talk.exec := by
  by_cases through : talk.outbound.waiting = []
  · exact ⟨[], talk, by simp, .nil, coheres, through, runs, rfl⟩
  · have hstep : talk.Step (.reached ⟨talk.outbound.waiting, through⟩)
        { talk with
          outbound := ⟨talk.outbound.arrived ++ talk.outbound.waiting, []⟩
          chan := talk.chan.map (arrive ⟨talk.outbound.waiting, through⟩) } := by
      have delivers := Pipe.deliver_of_waiting
        (List.append_nil talk.outbound.waiting).symm
      rw [Talk.Step, Talk.next, if_neg (by simp [runs]), delivers]
      rfl
    exact ⟨_, _, by simp [Delivery], Trace.single hstep,
      coheres.step (by exact trivial) hstep, rfl, runs, rfl⟩

/-- The agent takes its turns until it has to wait. -/
theorem Coheres.settles (coheres : Coheres cmds sends talk)
    (all : ∀ ok ∈ sends, ok = true) (runs : talk.cut = false)
    (through : talk.outbound.waiting = []) (world : Nat → Turn) :
    ∃ count after, Trace Talk.Step talk (turns world count) after ∧
      Coheres cmds sends after ∧ after.Settled ∧ after.cut = false ∧
      after.exec = talk.exec := by
  generalize hsize : (talk.chan.map fun chan =>
    chan.packets.flatten.length).getD 0 = size
  induction size using Nat.strongRecOn generalizing talk world with
  | ind size ih =>
      by_cases settled : talk.Settled
      · exact ⟨0, talk, .nil, coheres, settled, runs, rfl⟩
      · obtain ⟨tried, done, waiting, unsaid, before, coherent⟩ := coheres
        cases coherent.followed with
        | failed _ raises _ _ _ => exact absurd all raises
        | ended _ cut _ _ _ _ => exact absurd (runs.symm.trans cut) (by decide)
        | serving chan serves plain awaits _ _ =>
            have goes : chan.Goes talk.cut := by
              by_contra stays
              refine settled ⟨through, fun other same => ?_⟩
              rwa [← Option.some.inj (serves.symm.trans same)]
            have hstep : talk.Step (.turn (world 0))
                (talk.serve (world 0) chan) := by
              rw [Talk.Step, Talk.next, serves, Option.bind_some, if_pos goes]
            have hread : chan.readLine.2.eof = false := by
              rcases goes with ended | cut | goes
              · exact absurd (plain.running.symm.trans ended) (by decide)
              · exact absurd (runs.symm.trans cut) (by decide)
              · exact goes
            obtain ⟨next, hnext, shorter⟩ :=
              @turn_shorter (world 0) _ _ _ plain awaits hread
            have hlater : Coheres cmds sends (talk.serve (world 0) chan) :=
              Coheres.step ⟨tried, done, waiting, unsaid, before, coherent⟩
                (by exact trivial) hstep
            have hless : (((talk.serve (world 0) chan).chan.map fun chan =>
                chan.packets.flatten.length).getD 0) < size := by
              rw [← hsize, serves, Talk.serve, hnext]
              exact shorter
            obtain ⟨count, after, htrace, hafter⟩ :=
              ih _ hless hlater runs through (fun n => world (n + 1)) rfl
            refine ⟨count + 1, after, ?_, hafter⟩
            rw [turns_succ]
            exact (Trace.single hstep).trans htrace

/-- The builder reads all that has been sent to it. -/
theorem Coheres.hears (coheres : Coheres cmds sends talk)
    (running : talk.exec.alive = none) (settled : talk.Settled)
    (runs : talk.cut = false) :
    ∃ last after, (∀ event ∈ last, Delivery event) ∧
      Trace Talk.Step talk last after ∧ Coheres cmds sends after ∧
      after.Settled ∧ after.inbound.waiting = [] ∧ after.cut = false ∧
      after.exec = { talk.exec with out := after.exec.out } := by
  by_cases through : talk.inbound.waiting = []
  · exact ⟨[], talk, by simp, .nil, coheres, settled, through, runs, rfl⟩
  · have entire : ∃ data, talk.inbound.waiting = Telnet.escape data := by
      obtain ⟨tried, done, waiting, unsaid, before, coherent⟩ := coheres
      have hsent := coherent.voiced.bytes
      obtain ⟨rest, hrest⟩ : talk.exec.out <+: before.flatMap Prod.snd := by
        apply prefix_of_escape
        rw [← coherent.voiced.read, ← hsent]
        exact talk.inbound.arrived_prefix
      refine ⟨rest, ?_⟩
      rwa [Pipe.sent, coherent.voiced.read, ← hrest, Telnet.escape_append,
        List.append_cancel_left_eq] at hsent
    obtain ⟨data, hdata⟩ := entire
    have hstep : talk.Step (.heard ⟨talk.inbound.waiting, through⟩)
        (talk.hear ⟨talk.inbound.waiting, through⟩
          ⟨talk.inbound.arrived ++ talk.inbound.waiting, []⟩) := by
      have delivers := Pipe.deliver_of_waiting
        (List.append_nil talk.inbound.waiting).symm
      rw [Talk.Step, Talk.next, if_pos running, delivers]
      rfl
    refine ⟨_, _, by simp [Delivery], Trace.single hstep,
      coheres.step (by exact ⟨data, hdata⟩) hstep, ⟨?_, settled.2⟩, rfl, runs,
      rfl⟩
    rw [hear_outbound hdata]
    exact settled.1

end Completes

/--
However far the two have come, as long as the connection holds: once the bytes
under way have come through and the agent has taken its turns, whatever these
print, each command that was sent has been run and the builder has read all of
its output, with no more done by the builder.
-/
theorem talk_completes {cmds : List CommandLine} {sends : List Bool}
    {events : List Happening} {talk : Talk}
    (trace : Trace Talk.Step (Talk.opened cmds sends) events talk)
    (entire : ∀ event ∈ events, Entire event)
    (all : ∀ ok ∈ sends, ok = true) (runs : talk.cut = false)
    (running : talk.exec.alive = none) (world : Nat → Turn) :
    ∃ tried first count last after, cmds = tried ++ talk.exec.cmds ∧
      (∀ event ∈ first ++ last, Delivery event) ∧
      Trace Talk.Step talk (first ++ turns world count ++ last) after ∧
      after.log.map Prod.fst = tried.map CommandLine.text ∧
      after.exec = { talk.exec with out := after.log.flatMap Prod.snd } := by
  obtain ⟨first, reached, hfirst, hreach, hreached, through, runs, hexec⟩ :=
    (coheres_of_trace trace entire).reaches runs
  obtain ⟨count, served, hserve, hserved, settled, runs, hsame⟩ :=
    hreached.settles all runs through world
  have hrunning : served.exec.alive = none := by rw [hsame, hexec, running]
  obtain ⟨last, after, hlast, hhear, hafter, settled, through, runs, hout⟩ :=
    hserved.hears hrunning settled runs
  obtain ⟨tried, done, waiting, unsaid, before, coherent⟩ := hafter
  have hcmds : after.exec.cmds = talk.exec.cmds := by rw [hout, hsame, hexec]
  have hopen : after.exec.alive ≠ some false := by
    rw [hout, hrunning]
    simp
  refine ⟨tried, first, count, last, after, ?_, ?_,
    (hreach.trans hserve).trans hhear,
    coherent.ran_of_settled all hopen settled, ?_⟩
  · rw [← hcmds, coherent.spoken.commands]
  · exact List.forall_mem_append.mpr ⟨hfirst, hlast⟩
  · rw [← coherent.out_of_heard runs through, ← hexec, ← hsame]
    exact hout

/-- A command has been sent and has not come to the agent yet. -/
theorem talk_completes_sent : ∃ events talk after,
    Trace Talk.Step talk events after ∧ talk.log = [] ∧
      after.log.map Prod.fst = [[0x61]] ∧
      after.exec.out = after.log.flatMap Prod.snd := by
  have hsent : Trace Talk.Step (Talk.opened [commandA] []) [.passed]
      (Talk.opened [commandA] []).pass := Trace.single rfl
  obtain ⟨tried, first, count, last, after, hcmds, -, trace, hran, hexec⟩ :=
    talk_completes hsent (List.forall_mem_singleton.mpr trivial) (by simp) rfl rfl
      fun _ => ⟨[[0x62]], .noDirectory⟩
  refine ⟨_, _, after, trace, rfl, ?_, by rw [hexec]⟩
  have htried : [commandA] = tried ++ [] := hcmds
  rw [hran, ← List.append_nil tried, ← htried]
  rfl

/-! ## The marker probe -/

/-- `_telnet_ready_check`, from what `telnet_exec` has done. -/
def telnetReadyCheck (marker : List UInt8) (exec : Exec) : Bool :=
  exec.alive = some true && marker <:+: exec.out

theorem telnetReadyCheck_iff {marker : List UInt8} {exec : Exec} :
    telnetReadyCheck marker exec = true ↔
      exec.alive = some true ∧ marker <:+: exec.out := by
  simp only [telnetReadyCheck, Bool.and_eq_true, decide_eq_true_eq]

/--
When the marker is found, the agent has run the probe, the whole of it and
nothing else, and the probe has printed the marker.
-/
theorem ready_answered {probe : CommandLine} {sends : List Bool}
    {events : List Happening} {talk : Talk} {marker : List UInt8}
    (trace : Trace Talk.Step (Talk.opened [probe] sends) events talk)
    (entire : ∀ event ∈ events, Entire event) (nonempty : marker ≠ [])
    (ready : telnetReadyCheck marker talk.exec = true) :
    ∃ printed, talk.log = [(probe.text, printed)] ∧ marker <:+: printed := by
  obtain ⟨tried, faithful⟩ := conversation trace entire
  obtain ⟨alive, found⟩ := telnetReadyCheck_iff.mp ready
  obtain ⟨before, front, order, read⟩ := faithful.heard
  have hlength := faithful.ran.length_le
  rw [faithful.last alive] at order hlength
  cases before with
  | nil =>
      have hnone : talk.exec.out = [] := List.prefix_nil.mp read
      rw [hnone, List.infix_nil] at found
      exact absurd found nonempty
  | cons first others =>
      obtain ⟨line, printed⟩ := first
      obtain ⟨later, hlog⟩ := front
      have hnil : others = [] ∧ later = [] := by
        rw [← hlog] at hlength
        simp only [List.length_append, List.length_cons, List.length_nil]
          at hlength
        constructor <;> apply List.length_eq_zero_iff.mp <;> omega
      obtain ⟨rfl, rfl⟩ := hnil
      rw [List.map_singleton, List.map_singleton,
        List.cons_prefix_cons] at order
      refine ⟨printed, ?_, ?_⟩
      · rw [← hlog, List.append_nil]
        exact congrArg (fun text => [(text, printed)]) order.1
      · rw [List.flatMap_singleton] at read
        exact found.trans read.isInfix

theorem ready_answered_short : ∃ (talk : Talk) (printed : List UInt8),
    talk.log = [(commandA.text, printed)] ∧ [0x62, IAC] <:+: printed := by
  obtain ⟨talk, trace, alive, hout⟩ := shortTalk_runs
  have ready : telnetReadyCheck [0x62, IAC] talk.exec = true :=
    telnetReadyCheck_iff.mpr ⟨alive, [], [0x63], by rw [hout]; rfl⟩
  exact ⟨talk, ready_answered trace shortTalk_entire (by simp) ready⟩

end RiscosBuilder.Build
