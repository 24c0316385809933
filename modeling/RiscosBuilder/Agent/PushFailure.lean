import RiscosBuilder.Agent.Serve

/-!
# After a failed push

A push that fails leaves the channel where its last read left it, and a line
that is not taken for a push leaves it where the line ends.  The session goes on
from there unless the stream has ended, so no byte of the archive is taken for a
command exactly when the failing push had read all of it.
-/

namespace RiscosBuilder.Agent

open RiscosBuilder.Library RiscosBuilder.Library.ByteString

namespace Telnet

/-! ## How reads move a channel -/

theorem Filled.flushed {chan after : Telnet} {taken : List Chunk}
    (filled : Filled chan taken after) : after.flushed = chan.flushed := by
  have hscan := scan_append (chan.raw ++ wire taken) (wire after.sock.arrivals)
  unfold Telnet.flushed remaining
  rw [filled.ending, filled.raw, filled.arrivals, wire_append,
    ← List.append_assoc, hscan]

theorem fillWhile_of_eof {chan : Telnet} (ended : chan.eof = true)
    (short : List UInt8 → Bool) (fuel : Nat) :
    fillWhile short fuel chan = chan := by
  cases fuel <;> simp [fillWhile, ended]

theorem read_of_eof {chan : Telnet} (ended : chan.eof = true) (want : Nat) :
    (chan.read want).2.eof = true := by
  simpa [read, fillWhile_of_eof ended] using ended

/--
A read runs into the end of the stream exactly when it wants more than will
ever be decoded.
-/
theorem read_eof_iff {chan : Telnet} (running : chan.eof = false) (want : Nat) :
    ((chan.read want).2.eof = true ↔
      chan.payload.length < want + chan.flushed.length) ∧
    ((chan.read want).2.eof = false →
      (chan.read want).2.flushed = chan.flushed) := by
  have hstate : (chan.read want).2.eof = (fillWhile
      (fun buf => decide (buf.length < want)) chan.fillBound chan).eof := rfl
  rcases fillWhile_outcome (fun buf => decide (buf.length < want)) running with
    ⟨count, havailable, heq, hopen, henough, -⟩ | ⟨hended, hshort⟩
  · have filled := filled_iterate chan havailable
    have hupcoming : chan.flushed.length ≤
        (fill^[count] chan).upcoming.length := by
      rw [← filled.flushed]
      simp [upcoming, hopen]
    have hlength := congrArg List.length
      (iterate_buf_upcoming running havailable)
    rw [List.length_append] at hlength
    rw [decide_eq_false_iff_not, not_lt] at henough
    refine ⟨?_, fun _ => ?_⟩
    · simp only [hstate, heq, hopen, Bool.false_eq_true, false_iff, not_lt]
      omega
    · rw [read, heq]
      exact filled.flushed
  · rw [decide_eq_true_iff, List.length_append] at hshort
    refine ⟨?_, by simp [hstate, hended]⟩
    simp only [hstate, hended, true_iff, payload, upcoming, running,
      Bool.false_eq_true, if_false, List.length_append]
    omega

end Telnet

/-- The bytes that a run of `tarfile` asks the channel for. -/
def wanted : List TarStep → Nat
  | [] => 0
  | .read want :: steps => want + wanted steps
  | .member _ :: steps => wanted steps

theorem runTar_payload (steps : List TarStep) (chan : Telnet) :
    (runTar steps chan).2.payload = chan.payload.drop (wanted steps) := by
  induction steps generalizing chan with
  | nil => rfl
  | cons step steps ih =>
      cases step with
      | read want =>
          rw [runTar, ih, (chan.read_payload want).2, List.drop_drop, wanted]
      | member name => exact ih chan

theorem runTar_of_eof {chan : Telnet} (ended : chan.eof = true)
    (steps : List TarStep) : (runTar steps chan).2.eof = true := by
  induction steps generalizing chan with
  | nil => exact ended
  | cons step steps ih =>
      cases step with
      | read want => exact ih (Telnet.read_of_eof ended want)
      | member name => exact ih ended

theorem runTar_eof_iff {chan : Telnet} (running : chan.eof = false)
    (steps : List TarStep) :
    (runTar steps chan).2.eof = true ↔
      chan.payload.length < wanted steps + chan.flushed.length := by
  induction steps generalizing chan with
  | nil =>
      have hle : chan.flushed.length ≤ chan.payload.length := by
        simp only [Telnet.payload, Telnet.upcoming, running,
          Bool.false_eq_true, if_false, List.length_append]
        omega
      simpa [runTar, wanted, running] using hle
  | cons step steps ih =>
      cases step with
      | read want =>
          obtain ⟨heof, hflushed⟩ := Telnet.read_eof_iff running want
          simp only [runTar, wanted]
          cases hread : (chan.read want).2.eof with
          | true =>
              rw [hread] at heof
              have hshort := heof.mp rfl
              simp only [runTar_of_eof hread, true_iff]
              omega
          | false =>
              rw [hread] at heof
              rw [ih hread, hflushed hread, (chan.read_payload want).2,
                List.length_drop]
              simp only [Bool.false_eq_true, false_iff, not_lt] at heof
              omega
      | member name => exact ih running

/-! ## No turn of the loop goes back in the payload -/

namespace Telnet

theorem splitLine_suffix {buf line rest : List UInt8}
    (split : splitLine buf = some (line, rest)) : rest <:+ buf := by
  unfold splitLine at split
  cases hpos : (find buf LF).or (find buf CR) with
  | none => simp [hpos] at split
  | some pos =>
      rw [hpos] at split
      obtain ⟨-, rfl⟩ := Prod.mk.inj (Option.some.inj split)
      exact (dropTerminator_suffix _).trans (List.drop_suffix _ _)

theorem readLine_payload_suffix (chan : Telnet) :
    chan.readLine.2.payload <:+ chan.payload := by
  have hpayload := fillWhile_payload (fun buf => (splitLine buf).isNone)
    chan.fillBound chan
  have hstop := fillWhile_stops (fun buf => (splitLine buf).isNone) chan
  unfold readLine
  generalize fillWhile _ _ chan = after at hpayload hstop
  rw [← hpayload]
  cases hsplit : splitLine after.buf with
  | some found =>
      obtain ⟨line, rest⟩ := found
      simp only [hsplit, payload_with_buf]
      obtain ⟨front, hfront⟩ := splitLine_suffix hsplit
      exact ⟨front, by rw [← List.append_assoc, hfront]; rfl⟩
  | none =>
      have hended : after.eof = true := by
        simpa [hsplit] using hstop
      simp only [hsplit]
      rw [payload_with_buf]
      simp [upcoming, hended]

theorem write_payload (chan : Telnet) (data : List UInt8) :
    (chan.write data).eof = true ∨
      (chan.eof = false ∧ (chan.write data).payload = chan.payload) := by
  cases heof : (chan.write data).eof with
  | true => exact Or.inl rfl
  | false =>
      have hopen : chan.eof = false := by
        simp only [write, Bool.or_eq_false_iff] at heof
        exact heof.1
      refine Or.inr ⟨hopen, ?_⟩
      unfold payload upcoming
      rw [heof, hopen]
      rfl

theorem write_of_eof {chan : Telnet} (ended : chan.eof = true)
    (data : List UInt8) : (chan.write data).eof = true := by
  simp [write, ended]

end Telnet

theorem runCommand_of_eof {chan : Telnet} (ended : chan.eof = true)
    (output : List (List UInt8)) : (runCommand chan output).eof = true := by
  induction output generalizing chan with
  | nil => exact ended
  | cons block output ih => exact ih (chan.write_of_eof ended block)

theorem runCommand_payload (chan : Telnet) (output : List (List UInt8)) :
    (runCommand chan output).eof = true ∨
      (runCommand chan output).payload = chan.payload := by
  induction output generalizing chan with
  | nil => exact Or.inr rfl
  | cons block output ih =>
      rcases chan.write_payload block with ended | ⟨-, same⟩
      · exact Or.inl (runCommand_of_eof ended output)
      · rw [← same]
        exact ih (chan.write block)

theorem doExtract_payload (chan : Telnet) (extraction : Extraction) :
    (doExtract chan extraction).2.eof = true ∨
      (doExtract chan extraction).2.payload <:+ chan.payload := by
  match extraction with
  | .noDirectory => exact Or.inr List.suffix_rfl
  | .tar steps true =>
      exact Or.inr (by
        rw [doExtract, runTar_payload]
        exact List.drop_suffix _ _)
  | .tar steps false =>
      rcases (runTar steps chan).2.write_payload tarDone with ended | ⟨-, same⟩
      · exact Or.inl ended
      · exact Or.inr (by
          rw [doExtract, same, runTar_payload]
          exact List.drop_suffix _ _)

/-- A turn ends the stream or leaves a later part of the payload. -/
theorem serveTurn_payload {turn : Turn} {chan after : Telnet}
    (goesOn : (serveTurn turn chan).next = some after) :
    after.eof = true ∨ after.payload <:+ chan.payload := by
  have hline := chan.readLine_payload_suffix
  unfold serveTurn at goesOn
  split at goesOn
  · cases goesOn
  · split at goesOn
    · cases goesOn
    · next line rest heq =>
        rw [heq] at hline
        split at goesOn
        · cases goesOn
          exact Or.inr hline
        · split at goesOn
          · cases goesOn
            rcases runCommand_payload rest turn.output with ended | same
            · exact Or.inl ended
            · exact Or.inr (same ▸ hline)
          · cases goesOn
            exact (doExtract_payload rest turn.extraction).imp_right
              fun suffix => suffix.trans hline
          · cases goesOn

theorem serveTurn_of_eof {chan : Telnet} (ended : chan.eof = true)
    (turn : Turn) : serveTurn turn chan = ⟨[], none⟩ := by
  simp [serveTurn, ended]

/-- Once the stream has ended, no turn does anything. -/
theorem serve_of_eof {chan : Telnet} (ended : chan.eof = true)
    (world : Nat → Turn) (turns : Nat) :
    ∀ turn ∈ serve world turns chan, turn.2 = [] := by
  cases turns with
  | zero => simp [serve]
  | succ turns => simp [serve, serveTurn_of_eof ended]

/-- Every turn that does something begins in the payload the session began with. -/
theorem serve_payload (world : Nat → Turn) (turns : Nat) (chan : Telnet) :
    ∀ turn ∈ serve world turns chan,
      turn.2 = [] ∨ turn.1.payload <:+ chan.payload := by
  induction turns generalizing world chan with
  | zero => simp [serve]
  | succ turns ih =>
      intro turn member
      rw [serve, List.mem_cons] at member
      rcases member with rfl | member
      · exact Or.inr List.suffix_rfl
      · cases hnext : (serveTurn (world 0) chan).next with
        | none => simp [hnext] at member
        | some after =>
            rw [hnext] at member
            rcases serveTurn_payload hnext with ended | suffix
            · exact Or.inl (serve_of_eof ended _ turns turn member)
            · exact (ih _ after turn member).imp_right
                fun later => later.trans suffix

/-! ## Resuming behind a failed push -/

theorem Telnet.readLine_flushed {chan : Telnet}
    (goesOn : chan.readLine.2.eof = false) :
    chan.readLine.2.flushed = chan.flushed := by
  have hafter : chan.readLine.2.eof = (fillWhile
      (fun buf => (splitLine buf).isNone) chan.fillBound chan).eof ∧
      chan.readLine.2.flushed = (fillWhile
        (fun buf => (splitLine buf).isNone) chan.fillBound chan).flushed := by
    simp only [readLine]
    cases splitLine _ <;> exact ⟨rfl, rfl⟩
  rw [hafter.1] at goesOn
  have running : chan.eof = false := by
    by_contra ended
    rw [fillWhile_of_eof (by simpa using ended)] at goesOn
    exact ended goesOn
  rcases fillWhile_outcome (fun buf => (splitLine buf).isNone) running with
    ⟨count, havailable, heq, -⟩ | ⟨hended, -⟩
  · rw [hafter.2, heq]
    exact (filled_iterate chan havailable).flushed
  · rw [hended] at goesOn
    cases goesOn

/-- `mkdir -p 'D' && cd 'D' && tar -xf -`. -/
def pushLine (name : List UInt8) : List UInt8 :=
  ascii "mkdir -p '" ++ name ++ ascii "' && cd '" ++ name ++
    ascii "' && tar -xf -"

theorem pushLine_unterminated {name : List UInt8}
    (whole : Telnet.Unterminated name) :
    Telnet.Unterminated (pushLine name) := by
  obtain ⟨hcr, hlf⟩ := whole
  constructor
  · simp only [pushLine, List.mem_append, hcr, or_false, not_or]
    decide
  · simp only [pushLine, List.mem_append, hlf, or_false, not_or]
    decide

theorem strip_pushLine (name : List UInt8) :
    strip (pushLine name) = pushLine name := by
  have hhead : (pushLine name).dropWhile isSpace = pushLine name := rfl
  have hlast : pushLine name =
      (ascii "mkdir -p '" ++ name ++ ascii "' && cd '" ++ name ++
        ascii "' && tar -xf ") ++ [0x2d] := by
    simp only [pushLine, List.append_assoc]
    rfl
  rw [strip, hhead, hlast, List.rdropWhile_concat_neg _ _ _ (by decide)]

/-- The push ends by an exception, wherever it is raised. -/
def Extraction.fails : Extraction → Bool
  | .noDirectory => true
  | .tar _ raises => raises

/-- The bytes that a push asks the channel for. -/
def Extraction.wanted : Extraction → Nat
  | .noDirectory => 0
  | .tar steps _ => Agent.wanted steps

theorem doExtract_of_fails {chan : Telnet} (running : chan.eof = false)
    {extraction : Extraction} (fails : extraction.fails = true) :
    (doExtract chan extraction).2.payload =
        chan.payload.drop extraction.wanted ∧
      ((doExtract chan extraction).2.eof = true ↔
        chan.payload.length < extraction.wanted + chan.flushed.length) := by
  match extraction with
  | .noDirectory => exact ⟨rfl, runTar_eof_iff running []⟩
  | .tar steps true => exact ⟨runTar_payload steps chan, runTar_eof_iff running steps⟩
  | .tar steps false => cases fails

/--
A session that goes on with `resumed` behind a push keeps clear of its archive:
it ends or resumes at `after`, the first byte behind the archive, and no command
line is read at a point where bytes of the archive are still to come.
-/
def ArchiveSafe (world : Nat → Turn) (resumed : Telnet) (after : List UInt8) :
    Prop :=
  (resumed.eof = true ∨ resumed.payload = after) ∧
    ∀ turns, ∀ turn ∈ serve world turns resumed, ∀ line,
      Event.ran line ∈ turn.2 → turn.1.payload <:+ after

theorem archiveSafe_iff (world : Nat → Turn) (resumed : Telnet)
    (after : List UInt8) :
    ArchiveSafe world resumed after ↔
      resumed.eof = true ∨ resumed.payload = after := by
  refine ⟨And.left, fun ends => ⟨ends, ?_⟩⟩
  intro turns turn member line ran
  rcases ends with ended | same
  · rw [serve_of_eof ended world turns turn member] at ran
    simp at ran
  · rcases serve_payload world turns resumed turn member with silent | suffix
    · rw [silent] at ran
      simp at ran
    · exact same ▸ suffix

theorem Telnet.afterLine_suffix (chan : Telnet) (size : Nat)
    (follow : List UInt8) : afterLine chan size follow <:+ LF :: follow := by
  unfold afterLine
  split
  · exact List.suffix_rfl
  · split
    · exact List.suffix_cons _ _
    · exact (dropTerminator_suffix follow).trans (List.suffix_cons _ _)

theorem drop_eq_iff_of_suffix {pending after whole : List UInt8} {count : Nat}
    (pendingSuffix : pending <:+ whole) (afterSuffix : after <:+ whole)
    (within : count ≤ pending.length) :
    pending.drop count = after ↔ count + after.length = pending.length := by
  constructor
  · rintro rfl
    rw [List.length_drop]
    omega
  · intro hlength
    have hsuffix : pending.drop count <:+ whole :=
      (List.drop_suffix _ _).trans pendingSuffix
    have hle := List.suffix_of_suffix_length_le hsuffix afterSuffix
      (by rw [List.length_drop]; omega)
    exact hle.eq_of_length (by rw [List.length_drop]; omega)

/-! ## A push line that is run as a command -/

theorem parseParts_append (front back : List (List UInt8))
    (directory : Option (List UInt8)) (action : Option Action) :
    parseParts (front ++ back) directory action =
      (parseParts front directory action).bind fun found =>
        parseParts back found.1 found.2 := by
  induction front generalizing directory action with
  | nil => rfl
  | cons part front ih =>
      simp only [List.cons_append, parseParts, ih]
      split_ifs
      · rfl
      · rfl
      · cases words part with
        | nil => rfl
        | cons command options =>
            simp only
            split_ifs <;> rfl

/-- Its last part makes a push line a push, if anything does. -/
theorem parse_pushLine_extract (name : List UInt8) :
    parseTarCommand (pushLine name) = none ∨
      ∃ directory,
        parseTarCommand (pushLine name) = some (.extract, directory) := by
  have hline : pushLine name =
      (ascii "mkdir -p '" ++ name ++ ascii "' && cd '" ++ name ++ ascii "' ") ++
        0x26 :: 0x26 :: ascii " tar -xf -" := by
    simp only [pushLine, List.append_assoc]
    rfl
  have hlast : (ascii "mkdir -p '" ++ name ++ ascii "' && cd '" ++ name ++
      ascii "' ").getLast? ≠ some 0x26 := by
    rw [show ascii "' " = [0x27] ++ [0x20] from rfl, ← List.append_assoc,
      List.getLast?_concat]
    decide
  have htar : (splitOnPair 0x26 0x26 (ascii " tar -xf -")).map strip =
      [ascii "tar -xf -"] := by decide
  have hextract : ∀ directory action,
      parseParts [ascii "tar -xf -"] directory action =
        some (directory, some .extract) := fun _ _ => rfl
  rw [parseTarCommand, hline, splitOnPair_append _ hlast, List.map_append, htar,
    parseParts_append]
  cases parseParts ((splitOnPair 0x26 0x26 _).map strip) none none with
  | none => exact Or.inl rfl
  | some found =>
      obtain ⟨directory, action⟩ := found
      rw [Option.bind_some, hextract]
      cases directory with
      | none => exact Or.inl rfl
      | some directory => exact Or.inr ⟨directory, rfl⟩

/-- A command's output ends the session just if a `sendall` of it raises. -/
theorem runCommand_eof_iff {chan : Telnet} (running : chan.eof = false)
    (output : List (List UInt8)) :
    (runCommand chan output).eof = true ↔
      false ∈ chan.sock.sends.take output.length := by
  induction output generalizing chan with
  | nil => simp [runCommand, running]
  | cons block output ih =>
      have hrest : runCommand chan (block :: output) =
          runCommand (chan.write block) output := rfl
      have heof : (chan.write block).eof = !chan.sock.sends.headD true := by
        simp [Telnet.write, Socket.sendall, running]
      have hsends : (chan.write block).sock.sends = chan.sock.sends.tail := rfl
      rw [hrest]
      cases hok : chan.sock.sends with
      | nil =>
          rw [hok] at heof hsends
          rw [ih heof, hsends]
          simp
      | cons ok sends =>
          rw [hok] at heof hsends
          cases ok with
          | true =>
              rw [ih heof, hsends]
              simp
          | false => simp [runCommand_of_eof heof output]

/-- Fill `count` is the first with which more than `size` bytes are decoded. -/
structure Telnet.Passes (chan : Telnet) (size count : Nat) : Prop where
  long : size < (fill^[count] chan).buf.length
  first : ∀ earlier < count, (fill^[earlier] chan).buf.length ≤ size

theorem Telnet.Passes.unique {chan : Telnet} {size count other : Nat}
    (passes : chan.Passes size count) (again : chan.Passes size other) :
    count = other := by
  rcases lt_trichotomy count other with before | same | behind
  · exact absurd passes.long (again.first count before).not_gt
  · exact same
  · exact absurd again.long (passes.first other behind).not_gt

/-- With the fill that brings the end of the line, `read_line` stops filling. -/
theorem Telnet.readLine_passes {chan : Telnet} (running : chan.eof = false)
    {line follow : List UInt8} (whole : Unterminated line)
    (arrives : line.length + 2 ≤
      (chan.buf ++ (scan chan.remaining).out).length)
    (split : chan.payload = line ++ CR :: LF :: follow) :
    ∃ count, chan.Passes line.length count ∧
      chan.readLine.2.sock = (fill^[count] chan).sock := by
  obtain ⟨count, havailable, heq, -, hfound, hearlier⟩ :=
    readLine_stops running whole arrives split
  refine ⟨count, ⟨?_, hearlier⟩, ?_⟩
  · rcases splitLine_front whole
        ((iterate_buf_upcoming running havailable).trans split) with
      ⟨-, hnone⟩ | ⟨hlength, -⟩ | ⟨rest, hlength, -⟩
    · simp [hnone] at hfound
    · omega
    · omega
  · rw [readLine, heq]
    cases splitLine (fill^[count] chan).buf <;> rfl

/-! ## When the archive is left alone -/

/-- The bytes that a turn on the line of a push asks the channel for. -/
def pushWanted (line : List UInt8) (turn : Turn) : Nat :=
  match parseTarCommand line with
  | some (.extract, _) => turn.extraction.wanted
  | _ => 0

/--
No archive is unpacked: the line is not taken for a push, or the push ends by
an exception.
-/
def PushFails (line : List UInt8) (turn : Turn) : Prop :=
  parseTarCommand line = none ∨ turn.extraction.fails = true

/-- The line is run as a command, and a `sendall` of what it prints raises. -/
def OutputLost (chan : Telnet) (line : List UInt8) (turn : Turn) : Prop :=
  parseTarCommand line = none ∧ ∃ count, chan.Passes line.length count ∧
    false ∈ (Telnet.fill^[count] chan).sock.sends.take turn.output.length

section Resumed

variable {chan : Telnet} {name archive after : List UInt8} {world : Nat → Turn}

/-- What a turn does with a push line, if it is taken for a push or if not. -/
theorem serveTurn_of_read {turn : Turn} (running : chan.eof = false)
    (read : chan.readLine.1 = some (pushLine name)) :
    (parseTarCommand (pushLine name) = none → serveTurn turn chan =
      ⟨[.ran (pushLine name)], some (runCommand chan.readLine.2 turn.output)⟩) ∧
    ∀ directory, parseTarCommand (pushLine name) = some (.extract, directory) →
      serveTurn turn chan =
        ⟨[.pushed directory (doExtract chan.readLine.2 turn.extraction).1],
          some (doExtract chan.readLine.2 turn.extraction).2⟩ := by
  have hnonempty : pushLine name ≠ [] := by
    simp [pushLine, show ascii "mkdir -p '" ≠ [] by decide]
  have hread : chan.readLine = (some (pushLine name), chan.readLine.2) :=
    Prod.ext read rfl
  constructor
  · intro unknown
    rw [serveTurn, hread]
    simp [running, strip_pushLine, hnonempty, unknown]
  · intro directory recognised
    rw [serveTurn, hread]
    simp [running, strip_pushLine, hnonempty, recognised]

/-- Where the session goes on behind a push line, and when it has ended there. -/
theorem push_resumes (running : chan.eof = false)
    (whole : Telnet.Unterminated name)
    (arrives : (pushLine name).length + 2 ≤
      (chan.buf ++ (scan chan.remaining).out).length)
    (split : chan.payload = pushLine name ++ CR :: LF :: (archive ++ after))
    {turn : Turn} (fails : PushFails (pushLine name) turn) :
    ∃ resumed, (serveTurn turn chan).next = some resumed ∧
      (resumed.eof = true ↔
        (chan.afterLine (pushLine name).length (archive ++ after)).length <
          pushWanted (pushLine name) turn + chan.flushed.length ∨
        OutputLost chan (pushLine name) turn) ∧
      (resumed.eof = false → resumed.payload =
        (chan.afterLine (pushLine name).length (archive ++ after)).drop
          (pushWanted (pushLine name) turn)) := by
  obtain ⟨hline, hopen, hpayload⟩ := Telnet.readLine_terminated running
    (pushLine_unterminated whole) arrives split
  obtain ⟨count, hpasses, hsock⟩ := Telnet.readLine_passes running
    (pushLine_unterminated whole) arrives split
  rw [← hpayload, ← Telnet.readLine_flushed hopen]
  rcases parse_pushLine_extract name with unknown | ⟨directory, recognised⟩
  · have hwanted : pushWanted (pushLine name) turn = 0 := by
      simp [pushWanted, unknown]
    have hlost : OutputLost chan (pushLine name) turn ↔
        (runCommand chan.readLine.2 turn.output).eof = true := by
      rw [runCommand_eof_iff hopen, hsock]
      constructor
      · rintro ⟨-, other, again, lost⟩
        rwa [hpasses.unique again]
      · exact fun lost => ⟨unknown, count, hpasses, lost⟩
    have hshort : ¬ chan.readLine.2.payload.length <
        0 + chan.readLine.2.flushed.length := fun short => by
      have hended := (runTar_eof_iff hopen []).mpr short
      exact absurd (hopen.symm.trans hended) (by decide)
    rw [(serveTurn_of_read running hline).1 unknown, hwanted, hlost]
    refine ⟨_, rfl, (or_iff_right hshort).symm, fun goesOn => ?_⟩
    rcases runCommand_payload chan.readLine.2 turn.output with ended | same
    · exact absurd (goesOn.symm.trans ended) (by decide)
    · exact same
  · have hraises : turn.extraction.fails = true := fails.resolve_left fun unknown =>
      absurd (unknown.symm.trans recognised) (Option.some_ne_none _).symm
    have hwanted : pushWanted (pushLine name) turn = turn.extraction.wanted := by
      simp [pushWanted, recognised]
    have hdelivered : ¬ OutputLost chan (pushLine name) turn := by
      simp [OutputLost, recognised]
    obtain ⟨hdrop, heof⟩ := doExtract_of_fails hopen hraises
    rw [(serveTurn_of_read running hline).2 directory recognised, hwanted]
    exact ⟨_, rfl, by rw [heof, or_iff_left hdelivered], fun _ => hdrop⟩

/--
After a failed push no byte of the archive is taken for a command exactly when
the push had asked the channel for just those bytes that `read_line` left in
front of `after`, or for more than was still to be decoded.  A line that is not
taken for a push asks for none, and ends the session where its output is not
delivered.
-/
theorem push_failure (running : chan.eof = false)
    (whole : Telnet.Unterminated name)
    (arrives : (pushLine name).length + 2 ≤
      (chan.buf ++ (scan chan.remaining).out).length)
    (split : chan.payload = pushLine name ++ CR :: LF :: (archive ++ after))
    (fails : PushFails (pushLine name) (world 0)) :
    ∃ resumed, (serveTurn (world 0) chan).next = some resumed ∧
      (ArchiveSafe (fun n => world (n + 1)) resumed after ↔
        pushWanted (pushLine name) (world 0) + after.length =
          (chan.afterLine (pushLine name).length (archive ++ after)).length ∨
        (chan.afterLine (pushLine name).length (archive ++ after)).length <
          pushWanted (pushLine name) (world 0) + chan.flushed.length ∨
        OutputLost chan (pushLine name) (world 0)) := by
  obtain ⟨resumed, hnext, hended, hpayload⟩ :=
    push_resumes running whole arrives split fails
  refine ⟨resumed, hnext, ?_⟩
  rw [archiveSafe_iff, ← hended]
  generalize hpending : chan.afterLine _ _ = pending at hended hpayload ⊢
  have hsuffix : pending <:+ LF :: (archive ++ after) :=
    hpending ▸ chan.afterLine_suffix _ _
  have hafter : after <:+ LF :: (archive ++ after) :=
    (List.suffix_append _ _).trans (List.suffix_cons _ _)
  cases heof : resumed.eof with
  | true => simp
  | false =>
      rw [heof, Bool.false_eq_true, false_iff, not_or] at hended
      have within : pushWanted (pushLine name) (world 0) ≤ pending.length := by
        omega
      rw [hpayload heof, drop_eq_iff_of_suffix hsuffix hafter within]
      exact or_comm

end Resumed

/-- A push into `x` of the two bytes `A` and LF, all in one chunk. -/
def pushOfA : Telnet :=
  Telnet.opened [⟨pushLine [0x78] ++ [CR, LF, 65, LF], by decide⟩] .closed []

/-- A push that raises after reading the whole archive is harmless. -/
theorem push_failure_read_whole :
    ∃ resumed,
      (serveTurn ⟨[], .tar [.read 2] true⟩ pushOfA).next = some resumed ∧
        ArchiveSafe (fun _ => ⟨[], .tar [.read 2] true⟩) resumed [] := by
  obtain ⟨resumed, hnext, hsafe⟩ := @push_failure pushOfA [0x78] [65, LF] []
    (fun _ => ⟨[], .tar [.read 2] true⟩) rfl ⟨by decide, by decide⟩
    (by decide +kernel) (by decide +kernel) (Or.inr rfl)
  exact ⟨resumed, hnext, hsafe.mpr (Or.inl (by decide +kernel))⟩

/-- A push whose directory cannot be created has its archive run as a command. -/
theorem push_failure_runs_archive :
    (serve (fun _ => ⟨[], .noDirectory⟩) 3 pushOfA).map Prod.snd =
      [[.pushed [0x78] []], [.ran [65]], []] := by
  decide +kernel

end RiscosBuilder.Agent
