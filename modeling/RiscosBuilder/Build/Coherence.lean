import RiscosBuilder.Build.Talk

/-!
# What holds all the time between the builder and the agent

The command lines are divided twice: by what the builder has sent, and by what
the agent has run.  Each step moves one of the borders, or bytes on one of the
two ways.
-/

namespace RiscosBuilder.Build

open RiscosBuilder.Agent RiscosBuilder.Library RiscosBuilder.Library.ByteString

/-! ## What holds all the time -/

/-- What the builder has put on the wire, and what it is still going to. -/
structure Spoken (cmds tried : List CommandLine) (unsaid : List UInt8)
    (talk : Talk) : Prop where
  commands : cmds = tried ++ talk.exec.cmds
  bytes : talk.outbound.sent ++ unsaid = script cmds
  later : script talk.exec.cmds <:+ unsaid
  last : talk.exec.alive = some true → talk.exec.cmds = []
  whole : talk.exec.alive ≠ some false → unsaid = script talk.exec.cmds

/--
How far the agent has come: it serves on; a `sendall` has raised; or its stream
has ended, perhaps inside a line, and what there was of it has been run.
-/
inductive Followed (sends : List Bool) (done waiting : List CommandLine)
    (future : List UInt8) (talk : Talk) : Prop
  | serving (chan : Telnet) (serves : talk.chan = some chan)
      (plain : chan.Plain)
      (awaits : Awaits (chan.packets.flatten ++ future) waiting)
      (answers : (∀ ok ∈ sends, ok = true) → chan.Answers)
      (ran : talk.log.map Prod.fst = done.map CommandLine.text)
  | failed (gone : ∀ chan, talk.chan = some chan → chan.eof = true)
      (raises : ¬ ∀ ok ∈ sends, ok = true) (come : List UInt8)
      (awaits : Awaits (come ++ future) waiting)
      (ran : talk.log.map Prod.fst = done.map CommandLine.text)
  | ended (gone : ∀ chan, talk.chan = some chan → chan.eof = true)
      (cut : talk.cut = true) (part : List UInt8)
      (front : part <+: headText waiting)
      (awaits : Awaits (part ++ future) waiting)
      (ran : talk.log.map Prod.fst = done.map CommandLine.text ∨
        (strip part ≠ [] ∧ talk.log.map Prod.fst =
          done.map CommandLine.text ++ [strip part]))

/-- What the agent has put on the wire, and what the builder has read of it. -/
structure Voiced (cmds : List CommandLine)
    (before : List (List UInt8 × List UInt8)) (talk : Talk) : Prop where
  front : before <+: talk.log
  order : before.map Prod.fst <+: cmds.map CommandLine.text
  bytes : talk.inbound.sent = Telnet.escape (before.flatMap Prod.snd)
  read : talk.inbound.arrived = Telnet.escape talk.exec.out
  all : talk.cut = false → before = talk.log

/-- The three of them, with the lines divided by each of the parties. -/
structure Coherent (cmds : List CommandLine) (sends : List Bool)
    (tried done waiting : List CommandLine) (unsaid : List UInt8)
    (before : List (List UInt8 × List UInt8)) (talk : Talk) : Prop where
  order : cmds = done ++ waiting
  spoken : Spoken cmds tried unsaid talk
  followed : Followed sends done waiting (talk.outbound.waiting ++ unsaid) talk
  voiced : Voiced cmds before talk

/-! ## What the builder does -/

theorem script_cons_sentLine (c : CommandLine) (cmds : List CommandLine) :
    script (c :: cmds) = sentLine c ++ script cmds := by
  simp [script_cons, sentLine]

section Keeps

variable {cmds tried done waiting : List CommandLine} {sends : List Bool}
  {unsaid : List UInt8} {before : List (List UInt8 × List UInt8)}
  {talk : Talk}

/-- The agent does not see how much of its stream is on the wire already. -/
theorem Followed.congr {future : List UInt8} {after : Talk}
    (followed : Followed sends done waiting future talk)
    (chan : after.chan = talk.chan) (cut : after.cut = talk.cut)
    (log : after.log = talk.log) : Followed sends done waiting future after := by
  cases followed with
  | serving channel serves plain awaits answers ran =>
      exact .serving channel (chan.trans serves) plain awaits answers (log ▸ ran)
  | failed gone raises come awaits ran =>
      exact .failed (fun channel serves => gone channel (chan ▸ serves)) raises
        come awaits (log ▸ ran)
  | ended gone isCut part front awaits ran =>
      exact .ended (fun channel serves => gone channel (chan ▸ serves))
        (cut.trans isCut) part front awaits (log ▸ ran)

theorem Spoken.pass (spoken : Spoken cmds tried unsaid talk)
    (running : talk.exec.alive = none) :
    ∃ tried unsaid', Spoken cmds tried unsaid' talk.pass ∧
      talk.pass.outbound.waiting ++ unsaid' = talk.outbound.waiting ++ unsaid := by
  have hwhole := spoken.whole (by simp [running])
  unfold Talk.pass
  cases hcmds : talk.exec.cmds with
  | nil =>
      exact ⟨tried, unsaid, ⟨spoken.commands, spoken.bytes, spoken.later,
        fun _ => hcmds, fun _ => hwhole⟩, rfl⟩
  | cons c later =>
      rw [hcmds, script_cons_sentLine] at hwhole
      refine ⟨tried ++ [c], script later, ⟨?_, ?_, List.suffix_refl _,
        by simp [running], fun _ => rfl⟩, ?_⟩
      · simp [spoken.commands, hcmds]
      · rw [← spoken.bytes, hwhole, Pipe.put_sent, List.append_assoc]
      · rw [hwhole, Pipe.put_waiting, List.append_assoc]

theorem Spoken.raised (spoken : Spoken cmds tried unsaid talk)
    (running : talk.exec.alive = none) {c : CommandLine}
    {later : List CommandLine} (hcmds : talk.exec.cmds = c :: later)
    (size : Nat) :
    ∃ unsaid', Spoken cmds (tried ++ [c]) unsaid'
        { talk with
          exec := { talk.exec with cmds := later, alive := some false }
          outbound := talk.outbound.put ((sentLine c).take size) } ∧
      (talk.outbound.put ((sentLine c).take size)).waiting ++ unsaid' =
        talk.outbound.waiting ++ unsaid := by
  have hwhole := spoken.whole (by simp [running])
  rw [hcmds, script_cons_sentLine,
    ← List.take_append_drop size (sentLine c), List.append_assoc] at hwhole
  refine ⟨(sentLine c).drop size ++ script later, ⟨?_, ?_,
    List.suffix_append _ _, by simp,
    fun alive => absurd rfl alive⟩, ?_⟩
  · simp [spoken.commands, hcmds]
  · rw [← spoken.bytes, hwhole, Pipe.put_sent, List.append_assoc]
  · rw [hwhole, Pipe.put_waiting, List.append_assoc]

theorem Voiced.congr {after : Talk} (voiced : Voiced cmds before talk)
    (log : after.log = talk.log) (inbound : after.inbound = talk.inbound)
    (out : after.exec.out = talk.exec.out)
    (cut : after.cut = false → talk.cut = false) : Voiced cmds before after where
  front := log ▸ voiced.front
  order := voiced.order
  bytes := inbound ▸ voiced.bytes
  read := by rw [inbound, out, voiced.read]
  all runs := log ▸ voiced.all (cut runs)

/-- The builder's `recv` returns what the agent has escaped, and all of that. -/
def Entire : Happening → Prop
  | .heard packet => ∃ data, packet.1 = Telnet.escape data
  | _ => True

theorem hear_outbound {packet : Chunk} {inbound : Pipe UInt8} {data : List UInt8}
    (entire : packet.1 = Telnet.escape data) :
    (talk.hear packet inbound).outbound = talk.outbound := by
  rw [Talk.hear, entire, telnetEatIac_escape]
  exact Pipe.put_nil _

theorem Voiced.hear {packet : Chunk} {inbound : Pipe UInt8} {data : List UInt8}
    (voiced : Voiced cmds before talk)
    (delivers : talk.inbound.deliver packet.1 = some inbound)
    (entire : packet.1 = Telnet.escape data) :
    Voiced cmds before (talk.hear packet inbound) where
  front := voiced.front
  order := voiced.order
  bytes := (Pipe.sent_of_deliver delivers).trans voiced.bytes
  read := by
    have harrived := Pipe.arrived_of_deliver delivers
    rw [entire, voiced.read, ← Telnet.escape_append] at harrived
    rw [Talk.hear, entire, telnetEatIac_escape]
    exact harrived
  all := voiced.all

/-! ## What comes to the agent -/

theorem arrive_packets (packet : Chunk) (chan : Telnet) :
    (arrive packet chan).packets.flatten =
      chan.packets.flatten ++ packet.1 := by
  simp [arrive, Telnet.packets_flatten]

theorem Followed.reached {packet : Chunk} {outbound : Pipe UInt8}
    (followed : Followed sends done waiting
      (talk.outbound.waiting ++ unsaid) talk)
    (delivers : talk.outbound.deliver packet.1 = some outbound)
    (clean : IAC ∉ packet.1) (runs : talk.cut = false) :
    Followed sends done waiting (outbound.waiting ++ unsaid)
      { talk with outbound, chan := talk.chan.map (arrive packet) } := by
  have gone : (∀ chan, talk.chan = some chan → chan.eof = true) →
      ∀ chan, talk.chan.map (arrive packet) = some chan → chan.eof = true := by
    intro gone chan serves
    obtain ⟨earlier, hearlier, rfl⟩ := Option.map_eq_some_iff.mp serves
    exact gone earlier hearlier
  cases followed with
  | serving chan serves plain awaits answers ran =>
      refine .serving (arrive packet chan) (by rw [serves]; rfl)
        ⟨plain.running, plain.decoded, ?_⟩ ?_ answers ran
      · rw [arrive, wire_append, List.mem_append, not_or]
        exact ⟨plain.clean, by simpa using clean⟩
      · rw [arrive_packets, List.append_assoc, ← List.append_assoc packet.1,
          ← Pipe.waiting_of_deliver delivers]
        exact awaits
  | failed ends raises come awaits ran =>
      refine .failed (gone ends) raises (come ++ packet.1) ?_ ran
      rw [List.append_assoc, ← List.append_assoc packet.1,
        ← Pipe.waiting_of_deliver delivers]
      exact awaits
  | ended ends cut part front awaits ran =>
      rw [runs] at cut
      cases cut

theorem Followed.closed {future : List UInt8} (ending : Agent.Ending)
    (followed : Followed sends done waiting future talk) :
    Followed sends done waiting future
      { talk with cut := true, chan := talk.chan.map (arriveEnd ending) } := by
  have gone : (∀ chan, talk.chan = some chan → chan.eof = true) →
      ∀ chan, talk.chan.map (arriveEnd ending) = some chan →
        chan.eof = true := by
    intro gone chan serves
    obtain ⟨earlier, hearlier, rfl⟩ := Option.map_eq_some_iff.mp serves
    exact gone earlier hearlier
  cases followed with
  | serving chan serves plain awaits answers ran =>
      exact .serving (arriveEnd ending chan) (by rw [serves]; rfl)
        ⟨plain.running, plain.decoded, plain.clean⟩ awaits answers ran
  | failed ends raises come awaits ran =>
      exact .failed (gone ends) raises come awaits ran
  | ended ends cut part front awaits ran =>
      exact .ended (gone ends) rfl part front awaits ran

/-! ## The agent's turn -/

/-- A turn of which the builder is going to hear what it has printed. -/
theorem Voiced.serve {turn : Turn} {chan : Telnet}
    (voiced : Voiced cmds before talk)
    (sends : talk.cut = false → turnSends turn chan = Telnet.escape
      (((commandsOf (serveTurn turn chan).events).map
        (·, turn.output.flatten)).flatMap Prod.snd))
    (order : talk.cut = false →
      (talk.serve turn chan).log.map Prod.fst <+:
        cmds.map CommandLine.text) :
    ∃ before, Voiced cmds before (talk.serve turn chan) := by
  cases hcut : talk.cut with
  | true =>
      refine ⟨before, voiced.front.trans (List.prefix_append _ _), voiced.order,
        ?_, ?_, fun runs => ?_⟩
      · simpa [Talk.serve, hcut] using voiced.bytes
      · simpa [Talk.serve, hcut] using voiced.read
      · rw [Talk.serve, hcut] at runs
        cases runs
  | false =>
      refine ⟨(talk.serve turn chan).log, List.prefix_refl _, order hcut, ?_, ?_,
        fun _ => rfl⟩
      · simp only [Talk.serve, hcut, Bool.false_eq_true, if_false,
          Pipe.put_sent, List.flatMap_append, Telnet.escape_append,
          sends hcut, voiced.bytes, voiced.all hcut]
      · simpa [Talk.serve, hcut] using voiced.read

/-- A turn that runs nothing and sends nothing changes nothing else. -/
theorem Voiced.idle {turn : Turn} {chan : Telnet} {next : Option Telnet}
    (voiced : Voiced cmds before talk)
    (turned : serveTurn turn chan = ⟨[], next⟩)
    (silent : ∀ after, next = some after →
      after.sock.sent = chan.sock.sent) :
    Voiced cmds before (talk.serve turn chan) := by
  have hsends : turnSends turn chan = [] := by
    rw [turnSends, turned]
    cases next with
    | none => rfl
    | some after => simp [silent after rfl]
  refine voiced.congr ?_ ?_ rfl id
  · simp [Talk.serve, turned, commandsOf]
  · rw [Talk.serve, hsends, Pipe.put_nil, ite_self]

/-- Once its loop is left, or about to be, the agent does nothing more. -/
theorem serve_of_over {turn : Turn} {chan : Telnet} (ended : chan.eof = true) :
    (talk.serve turn chan).chan = none ∧
      (talk.serve turn chan).log = talk.log := by
  simp [Talk.serve, serveTurn_of_eof ended, commandsOf]

theorem serve_log_fst (turn : Turn) (chan : Telnet) :
    (talk.serve turn chan).log.map Prod.fst = talk.log.map Prod.fst ++
      commandsOf (serveTurn turn chan).events := by
  simp [Talk.serve, Function.comp_def]

/-- What a turn does to a conversation that goes on. -/
theorem Followed.turn {turn : Turn} {chan : Telnet} {future : List UInt8}
    (followed : Followed sends done waiting future talk)
    (voiced : Voiced cmds before talk) (order : cmds = done ++ waiting)
    (serves : talk.chan = some chan) (goes : chan.Goes talk.cut) :
    ∃ done waiting before, cmds = done ++ waiting ∧
      Followed sends done waiting future (talk.serve turn chan) ∧
      Voiced cmds before (talk.serve turn chan) := by
  have idle : chan.eof = true → Voiced cmds before (talk.serve turn chan) :=
    fun ended => voiced.idle (serveTurn_of_eof ended turn) (by simp)
  have left : chan.eof = true →
      ∀ next, (talk.serve turn chan).chan = some next → next.eof = true := by
    intro ended next hnext
    rw [(serve_of_over ended).1] at hnext
    cases hnext
  cases followed with
  | failed gone raises come awaits ran =>
      have ended := gone chan serves
      refine ⟨done, waiting, before, order,
        .failed (left ended) raises come awaits ?_, idle ended⟩
      rw [(serve_of_over ended).2, ran]
  | ended gone cut part front awaits ran =>
      have ended := gone chan serves
      refine ⟨done, waiting, before, order,
        .ended (left ended) cut part front awaits ?_, idle ended⟩
      rwa [(serve_of_over ended).2]
  | serving channel hopen plain awaits answers ran =>
      obtain rfl : chan = channel := Option.some.inj (serves.symm.trans hopen)
      have running := plain.running
      cases awaits.come with
      | part front hawaits =>
          obtain ⟨hread, hruns, hends⟩ := @turn_of_part turn _ _ plain front
          have hcut : talk.cut = true := by
            rcases goes with ended | cut | goesOn
            · exact absurd (running.symm.trans ended) (by decide)
            · exact cut
            · exact absurd (goesOn.symm.trans hread) (by decide)
          obtain ⟨before', hvoiced⟩ := @Voiced.serve _ _ _ turn chan voiced
            (fun runs => absurd (runs.symm.trans hcut) (by decide))
            fun runs => absurd (runs.symm.trans hcut) (by decide)
          refine ⟨done, waiting, before', order,
            .ended hends hcut _ front hawaits ?_, hvoiced⟩
          rw [serve_log_fst, ran]
          rcases hruns with none | ⟨nonblank, one⟩
          · exact Or.inl (by rw [none, List.append_nil])
          · exact Or.inr ⟨nonblank, by rw [one]⟩
      | feed tail split htail =>
          obtain ⟨-, after, hturn, hplain, hawaits, hsent, hsends⟩ :=
            @turn_of_feed turn _ _ _ _ plain split htail
          refine ⟨done, waiting, before, order, .serving after ?_ hplain
            (Or.inl hawaits) (fun all ok member => answers all ok (hsends ▸ member)) ?_,
            voiced.idle hturn fun other same => ?_⟩
          · rw [Talk.serve, hturn]
          · rw [serve_log_fst, hturn, ran]
            exact List.append_nil _
          · exact Option.some.inj same ▸ hsent
      | @line line later tail split htail =>
          obtain ⟨-, after, hturn, hplain, hawaits, hsent, hanswers⟩ :=
            @turn_of_line turn _ _ _ _ _ plain split htail
          have hlog : (talk.serve turn chan).log.map Prod.fst =
              (done ++ [line]).map CommandLine.text := by
            rw [serve_log_fst, hturn, ran, List.map_append]
            rfl
          have horder : cmds = (done ++ [line]) ++ later := by
            rw [order, List.append_assoc, List.singleton_append]
          obtain ⟨before', hvoiced⟩ := @Voiced.serve _ _ _ turn chan voiced
            (fun _ => by
              rw [turnSends, hturn]
              simp [hsent, commandsOf, Event.command])
            fun _ => by
              rw [hlog, horder]
              exact (List.prefix_append _ _).map _
          refine ⟨done ++ [line], later, before', horder, ?_, hvoiced⟩
          have hchan : (talk.serve turn chan).chan = some after := by
            rw [Talk.serve, hturn]
          cases heof : after.eof with
          | false =>
              exact .serving after hchan (hplain heof) hawaits
                (fun all => (hanswers (answers all)).1) hlog
          | true =>
              refine .failed (fun other same => ?_) (fun all => ?_) _ hawaits hlog
              · rw [hchan] at same
                exact Option.some.inj same ▸ heof
              · exact absurd (heof.symm.trans (hanswers (answers all)).2)
                  (by decide)

end Keeps

/-! ## Every step -/

/-- What holds of a conversation, however it was come to. -/
def Coheres (cmds : List CommandLine) (sends : List Bool) (talk : Talk) :
    Prop :=
  ∃ tried done waiting unsaid before,
    Coherent cmds sends tried done waiting unsaid before talk

theorem coheres_opened (cmds : List CommandLine) (sends : List Bool) :
    Coheres cmds sends (Talk.opened cmds sends) := by
  refine ⟨[], [], cmds, script cmds, [], rfl,
    ⟨rfl, rfl, List.suffix_refl _, by rintro ⟨⟩, fun _ => rfl⟩, ?_,
    ⟨List.nil_prefix, List.nil_prefix, rfl, rfl, fun _ => rfl⟩⟩
  exact .serving _ rfl ⟨rfl, rfl, List.not_mem_nil⟩ (Or.inl rfl) id rfl

theorem Coheres.step {cmds : List CommandLine} {sends : List Bool}
    {talk after : Talk} {happening : Happening}
    (coheres : Coheres cmds sends talk) (entire : Entire happening)
    (steps : talk.Step happening after) : Coheres cmds sends after := by
  obtain ⟨tried, done, waiting, unsaid, before, order, spoken, followed,
    voiced⟩ := coheres
  unfold Talk.Step at steps
  cases happening with
  | passed =>
      rw [Talk.next, Option.ite_none_right_eq_some] at steps
      obtain ⟨running, same⟩ := steps
      obtain ⟨tried', unsaid', hspoken, hfuture⟩ := spoken.pass running
      rw [← Option.some.inj same]
      refine ⟨tried', done, waiting, unsaid', before, order, hspoken,
        hfuture ▸ followed.congr ?_ ?_ ?_, voiced.congr ?_ ?_ ?_ ?_⟩
      all_goals
        unfold Talk.pass
        cases talk.exec.cmds <;> first | rfl | exact id
  | raised size =>
      simp only [Talk.next] at steps
      split at steps
      · next c later running hcmds =>
          obtain ⟨unsaid', hspoken, hfuture⟩ := spoken.raised running hcmds size
          rw [← Option.some.inj steps]
          exact ⟨tried ++ [c], done, waiting, unsaid', before, order, hspoken,
            hfuture ▸ followed.congr rfl rfl rfl, voiced.congr rfl rfl rfl id⟩
      · cases steps
  | lost =>
      rw [Talk.next, Option.ite_none_right_eq_some] at steps
      rw [← Option.some.inj steps.2]
      exact ⟨tried, done, waiting, unsaid, before, order,
        ⟨spoken.commands, spoken.bytes, spoken.later, by simp,
          fun alive => absurd rfl alive⟩,
        followed.congr rfl rfl rfl, voiced.congr rfl rfl rfl id⟩
  | heard packet =>
      rw [Talk.next, Option.ite_none_right_eq_some,
        Option.map_eq_some_iff] at steps
      obtain ⟨-, inbound, delivers, rfl⟩ := steps
      obtain ⟨data, hdata⟩ := entire
      have hput := @hear_outbound talk packet inbound data hdata
      refine ⟨tried, done, waiting, unsaid, before, order,
        ⟨spoken.commands, ?_, spoken.later, spoken.last, spoken.whole⟩, ?_,
        voiced.hear delivers hdata⟩
      · rw [hput]
        exact spoken.bytes
      · rw [hput]
        exact followed.congr rfl rfl rfl
  | reached packet =>
      rw [Talk.next, Option.ite_none_left_eq_some,
        Option.map_eq_some_iff] at steps
      obtain ⟨runs, outbound, delivers, rfl⟩ := steps
      have clean : IAC ∉ packet.1 := by
        intro member
        refine iac_not_mem_script cmds ?_
        rw [← spoken.bytes, Pipe.sent, Pipe.waiting_of_deliver delivers]
        simp [member]
      refine ⟨tried, done, waiting, unsaid, before, order,
        ⟨spoken.commands, ?_, spoken.later, spoken.last, spoken.whole⟩,
        followed.reached delivers clean (by simpa using runs),
        voiced.congr rfl rfl rfl id⟩
      rw [Pipe.sent_of_deliver delivers]
      exact spoken.bytes
  | closed ending =>
      rw [← Option.some.inj steps]
      exact ⟨tried, done, waiting, unsaid, before, order,
        ⟨spoken.commands, spoken.bytes, spoken.later, spoken.last, spoken.whole⟩,
        followed.closed ending, voiced.congr rfl rfl rfl (by simp)⟩
  | turn turn =>
      rw [Talk.next, Option.bind_eq_some_iff] at steps
      obtain ⟨chan, serves, steps⟩ := steps
      rw [Option.ite_none_right_eq_some] at steps
      obtain ⟨goes, same⟩ := steps
      obtain ⟨done', waiting', before', horder, hfollowed, hvoiced⟩ :=
        followed.turn voiced order serves goes
      rw [← Option.some.inj same]
      exact ⟨tried, done', waiting', unsaid, before', horder,
        ⟨spoken.commands, spoken.bytes, spoken.later, spoken.last, spoken.whole⟩, hfollowed,
        hvoiced⟩

theorem coheres_of_trace {cmds : List CommandLine} {sends : List Bool}
    {events : List Happening} {talk : Talk}
    (trace : Trace Talk.Step (Talk.opened cmds sends) events talk)
    (entire : ∀ event ∈ events, Entire event) : Coheres cmds sends talk := by
  refine trace.invariant (P := fun events talk =>
    (∀ event ∈ events, Entire event) → Coheres cmds sends talk) ?_ ?_ entire
  · exact fun _ => coheres_opened cmds sends
  · intro events state event after ih steps entire
    rw [List.forall_mem_append, List.forall_mem_singleton] at entire
    exact (ih entire.1).step entire.2 steps

end RiscosBuilder.Build
