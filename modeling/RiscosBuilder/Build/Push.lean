import RiscosBuilder.Agent.Answered
import RiscosBuilder.Agent.PushComplete
import Mathlib.Data.List.Infix

/-!
# Pushing files into the guest

`_ro_push` of `hooks/host_enablessh.py` against the live agent: it puts the whole
archive on the wire without waiting for anything, and takes it for extracted when
the agent's marker has come.
-/

namespace RiscosBuilder.Build

open RiscosBuilder.Agent RiscosBuilder.Library RiscosBuilder.Library.ByteString
open RiscosBuilder.Library.Tar

/-- The marker that `_ro_push` waits for, as bytes of `got`. -/
def pushMarker : List UInt8 :=
  ascii "anyvm-tar-done"

/-- BINARY both ways. -/
def pushGreeting : List UInt8 :=
  [IAC, WILL, OPT_BINARY, IAC, DO, OPT_BINARY]

/--
What `_ro_push` sends: BINARY both ways, the command line, and the archive with
every `IAC` doubled.
-/
def pushStream (directory archive : List UInt8) : List UInt8 :=
  pushGreeting ++ (pushLine directory ++ [CR, LF]) ++ Telnet.escape archive

/--
The loop of `_ro_push`, from the bytes that it has `got`, over the chunks that
`recv` returns before its time is over or the stream ends.
-/
def awaitMarker (got : List UInt8) : List Chunk → Bool
  | [] => false
  | chunk :: chunks =>
      if pushMarker <:+: got ++ chunk.1 then true
      else awaitMarker (got ++ chunk.1) chunks

/-- It looks at all that has come, though chunk by chunk. -/
theorem awaitMarker_iff {got : List UInt8} (silent : ¬ pushMarker <:+: got)
    (chunks : List Chunk) :
    awaitMarker got chunks = true ↔ pushMarker <:+: got ++ wire chunks := by
  induction chunks generalizing got with
  | nil => simpa [awaitMarker] using silent
  | cons chunk chunks ih =>
      rw [awaitMarker, wire_cons, ← List.append_assoc]
      split
      · next found =>
          simp only [true_iff]
          exact found.trans (List.prefix_append _ _).isInfix
      · next absent => exact ih absent

/-! ## What the agent makes of the stream -/

theorem iac_not_mem_pushLine {name : List UInt8} (clean : IAC ∉ name) :
    IAC ∉ pushLine name := by
  simp only [pushLine, List.mem_append, clean, or_false, not_or]
  decide

theorem scan_pushStream {directory archive : List UInt8}
    (clean : IAC ∉ directory) :
    scan (pushStream directory archive) =
      ⟨pushLine directory ++ CR :: LF :: archive,
        [[IAC, DO, OPT_BINARY], [IAC, WILL, OPT_BINARY]], []⟩ := by
  have hline := Telnet.iac_not_mem_terminated (iac_not_mem_pushLine clean)
  have hrest := Telnet.scan_plain_append hline (Telnet.escape archive)
  rw [Telnet.scan_escape] at hrest
  change scan (IAC :: WILL :: OPT_BINARY :: IAC :: DO :: OPT_BINARY ::
    (pushLine directory ++ [CR, LF] ++ Telnet.escape archive)) = _
  rw [scan_of_scanNext (scanNext_negotiation (by decide) _ _),
    scan_of_scanNext (scanNext_negotiation (by decide) _ _), hrest,
    List.append_assoc]
  rfl

/-- The answers hold nothing of the marker. -/
theorem marker_not_answered : ¬ pushMarker <:+:
    [[IAC, DO, OPT_BINARY], [IAC, WILL, OPT_BINARY]].flatten := by
  decide

/-- The channel that `do_extract` is called on, the stream coming in `chunks`. -/
def extractChannel (chunks : List Chunk) (sends : List Bool) : Telnet :=
  (Telnet.opened chunks .closed sends).readLine.2

/--
No chunk ends between the CR and the LF of the command line, and the archive
begins with neither LF nor NUL unless a chunk ends right behind that LF.
-/
def LineIntact (name archive : List UInt8) (chunks : List Chunk) : Prop :=
  ¬ Telnet.Cut chunks (pushGreeting.length + ((pushLine name).length + 1)) ∧
    (Telnet.Cut chunks (pushGreeting.length + ((pushLine name).length + 2)) ∨
      (archive.head? ≠ some LF ∧ archive.head? ≠ some NUL))

section Push

variable {directory name archive : List UInt8} {chunks : List Chunk}

/--
The command line is read, and `do_extract` finds the archive next on the channel
exactly when the line is intact.
-/
theorem readLine_push (clean : IAC ∉ name) (whole : Telnet.Unterminated name)
    (sent : wire chunks = pushStream name archive) (sends : List Bool) :
    (Telnet.opened chunks .closed sends).readLine.1 = some (pushLine name) ∧
      ((extractChannel chunks sends).payload = archive ↔
        LineIntact name archive chunks) := by
  have hgreeting : (scan pushGreeting).out = [] ∧
      (scan pushGreeting).raw = [] := by
    decide
  have hsent : wire chunks = pushGreeting ++
      ((pushLine name ++ [CR, LF]) ++ Telnet.escape archive) := by
    rw [sent, pushStream, List.append_assoc]
  exact Telnet.readLine_greeted hgreeting.1 hgreeting.2
    (pushLine_unterminated whole) (iac_not_mem_pushLine clean) hsent .closed sends

/-- The first turn takes the command line, and begins the transfer. -/
theorem serveTurn_push (clean : IAC ∉ name)
    (whole : Telnet.Unterminated name)
    (recognised : parseTarCommand (pushLine name) = some (.extract, directory))
    (sent : wire chunks = pushStream name archive) (sends : List Bool)
    (turn : Turn) :
    serveTurn turn (Telnet.opened chunks .closed sends) =
      ⟨[.pushed directory
          (doExtract (extractChannel chunks sends) turn.extraction).1],
        some (doExtract (extractChannel chunks sends) turn.extraction).2⟩ :=
  (serveTurn_of_read rfl (readLine_push clean whole sent sends).1).2 directory
    recognised

end Push

/-! ## What the marker tells -/

/--
How the push of some members stands with what has been `received` of the agent,
the stream coming in the chunks `stream`: the transfer has begun, on the archive
just if the command line is intact; what `tarfile` extracts from it then are the
members pushed; and the marker is found just if `tarfile` has come to its end,
once the agent's bytes are through.
-/
structure Confirmed {frombuf : List UInt8 → Info}
    (members : List (Tar.Member frombuf)) (name directory : List UInt8)
    (stream : List Chunk) (transfer : Telnet) (turn : Turn)
    (events : List Agent.Event) (chan : Telnet) (received : List Chunk) :
    Prop where
  begun : events = [.pushed directory (doExtract transfer turn.extraction).1]
  handed : transfer.payload = archive members ↔
    LineIntact name (archive members) stream
  extracted : LineIntact name (archive members) stream →
    turn.extraction = untar frombuf transfer.payload →
      (doExtract transfer turn.extraction).1 =
        members.filterMap fun member => safeName (frombuf member.header).name
  sound : awaitMarker [] received = true → turn.extraction.fails = false
  complete : turn.extraction.fails = false → wire received = chan.sock.sent →
    awaitMarker [] received = true

/--
However the stream is cut and whenever the agent takes its turns: as long as the
connection holds and the agent has taken no other line, `_ro_push` finds the
marker only if the agent's `tarfile` has not raised, and finds it then.
-/
theorem push_confirmed {frombuf : List UInt8 → Info}
    {members : List (Tar.Member frombuf)} {name directory : List UInt8}
    (clean : IAC ∉ name) (whole : Telnet.Unterminated name)
    (recognised : parseTarCommand (pushLine name) = some (.extract, directory))
    {stream : List Chunk}
    (pushes : wire stream = pushStream name (archive members))
    {sends : List Bool} {inputs : List Input} {live : Live}
    (trace : Trace Live.Step (Live.opened sends) inputs live)
    (coming : live.arrived <+: stream) (unbroken : live.ended = none)
    {chan : Telnet} (serves : live.chan = some chan) {turn : Turn}
    {events : List Agent.Event} {rest : List (Turn × List Agent.Event)}
    (log : live.log = (turn, events) :: rest)
    (only : ∀ entry ∈ rest, entry.2 = []) {received : List Chunk}
    (heard : wire received <+: chan.sock.sent) :
    Confirmed members name directory stream (extractChannel stream sends) turn
      events chan received := by
  obtain ⟨later, hstream⟩ := coming
  have hworld : Agent.Agrees (fun n => ((live.log.map Prod.fst)[n]?).getD turn)
      live.log := by
    intro n other others found
    simp [found]
  have hscripted := (Follows.of_trace trace).coming unbroken later .closed _
    hworld
  rw [log, serves, hstream] at hscripted
  have hturn := serveTurn_push clean whole recognised pushes sends turn
  obtain ⟨hevents, ⟨after, hafter, hrest⟩ | ⟨-, -, hnone⟩⟩ := hscripted.uncons
  case inr => exact absurd hnone (Option.some_ne_none _)
  simp only [List.map_cons, List.getElem?_cons_zero, Option.getD_some, hturn]
    at hevents hafter
  obtain rfl := Option.some.inj hafter
  have hsilent := hrest.silent only
  have hhanded := (readLine_push clean whole pushes sends).2
  have hanswered : Telnet.Answered (Telnet.opened stream .closed sends)
      (extractChannel stream sends) := Telnet.Answered.readLine _
  obtain ⟨hfails, hsucceeds⟩ :=
    doExtract_answered (extractChannel stream sends) turn.extraction
  have hempty : ¬ pushMarker <:+: [] := by decide
  refine ⟨hevents.symm, hhanded, fun intact same => ?_, fun found => ?_,
    fun succeeds all => ?_⟩
  · rw [same, hhanded.mpr intact]
    exact doExtract_names members _
  · by_contra fails
    have hfront := ((hanswered.trans (hfails (by simpa using fails))).trans
      hsilent).sent_foretold
    have hforetold : (Telnet.opened stream .closed sends).foretold =
        [[IAC, DO, OPT_BINARY], [IAC, WILL, OPT_BINARY]].flatten := by
      have hremaining : (Telnet.opened stream .closed sends).remaining =
          pushStream name (archive members) := pushes
      rw [Telnet.foretold, hremaining, scan_pushStream clean]
      rfl
    rw [hforetold] at hfront
    have hmarker := (awaitMarker_iff hempty received).mp found
    exact marker_not_answered
      (hmarker.trans (heard.trans hfront).isInfix)
  · rw [awaitMarker_iff hempty, List.nil_append, all]
    have hmarker : pushMarker <:+: Telnet.escape tarDone := by decide
    exact (hmarker.trans (hsucceeds succeeds).isInfix).trans
      hsilent.sent.isInfix

/-- A turn that is taken when all has come. -/
theorem turn_after_chunks {chunks : List Chunk} {sends : List Bool} {turn : Turn}
    (enough : waits turn (Telnet.opened chunks .closed sends) = false) :
    (chunks.map Input.chunk ++ [Input.turn turn]).foldlM Live.next
        (Live.opened sends) =
      some
        { chan := (serveTurn turn (Telnet.opened chunks .closed sends)).next
          arrived := chunks
          ended := none
          log := [(turn,
            (serveTurn turn (Telnet.opened chunks .closed sends)).events)] } := by
  have hcome : (chunks.map Input.chunk).foldlM Live.next (Live.opened sends) =
      some ⟨some (Telnet.opened chunks .closed sends), chunks, none, []⟩ := by
    clear enough
    induction chunks using List.reverseRecOn with
    | nil => rfl
    | append_singleton chunks chunk ih =>
        rw [List.map_append, List.foldlM_append, ih]
        rfl
  rw [List.foldlM_append, hcome]
  simp [Live.next, enough]

/-- A file is pushed in two chunks, the second of them the archive. -/
def fileChunks : List Chunk :=
  [⟨pushGreeting ++ (pushLine [0x78] ++ [CR, LF]), by decide⟩,
    ⟨Telnet.escape (archive [fileA]), by decide +kernel⟩]

/-- `tarfile` comes to the end of what is handed to it. -/
def fileTurn : Turn where
  output := []
  extraction := untar ustarInfo (archive [fileA])

/-- What the agent sends then. -/
def fileHeard : List Chunk :=
  [⟨[IAC, DO, OPT_BINARY, IAC, WILL, OPT_BINARY] ++ Telnet.escape tarDone,
    by decide⟩]

theorem wire_fileChunks :
    wire fileChunks = pushStream [0x78] (archive [fileA]) := by
  rw [wire, fileChunks, pushStream, List.map_cons, List.map_singleton,
    List.flatten_cons, List.flatten_singleton]

theorem lineIntact_file : LineIntact [0x78] (archive [fileA]) fileChunks := by
  refine ⟨?_, Or.inl ⟨1, by decide⟩⟩
  rintro ⟨count, hsize⟩
  rcases count with - | - | count
  · exact absurd hsize (by decide)
  · exact absurd hsize (by decide)
  · rw [List.take_of_length_le (show fileChunks.length ≤ count + 2 from
      Nat.le_add_left _ _), wire_fileChunks, pushStream, List.length_append,
      List.length_append, List.length_append] at hsize
    simp only [List.length_cons, List.length_nil] at hsize
    omega

theorem push_confirmed_file : ∃ chan,
    Confirmed [fileA] [0x78] [0x78] fileChunks (extractChannel fileChunks [])
        fileTurn [.pushed [0x78] [[97]]] chan fileHeard ∧
      (extractChannel fileChunks []).payload = archive [fileA] ∧
      awaitMarker [] fileHeard = true := by
  obtain ⟨hwaits, hevents, hnext⟩ :
      waits fileTurn (Telnet.opened fileChunks .closed []) = false ∧
      (serveTurn fileTurn (Telnet.opened fileChunks .closed [])).events =
        [.pushed [0x78] [[97]]] ∧
      (serveTurn fileTurn (Telnet.opened fileChunks .closed [])).next.map
        (fun chan => chan.sock.sent) = some (wire fileHeard) := by
    decide +kernel
  obtain ⟨chan, hchan, hsent⟩ := Option.map_eq_some_iff.mp hnext
  have hlive := turn_after_chunks hwaits
  rw [hevents, hchan] at hlive
  have hrecognised : parseTarCommand (pushLine [0x78]) =
      some (.extract, [0x78]) := by
    decide +kernel
  have hheard : wire fileHeard <+: chan.sock.sent :=
    hsent ▸ List.prefix_refl _
  have hconfirmed := push_confirmed (by decide) ⟨by decide, by decide⟩
    hrecognised wire_fileChunks (Trace.of_foldlM hlive) (List.prefix_refl _) rfl rfl
    rfl (by simp) hheard
  exact ⟨chan, hconfirmed, hconfirmed.handed.mpr lineIntact_file,
    hconfirmed.complete rfl hsent.symm⟩

end RiscosBuilder.Build
