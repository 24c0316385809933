import RiscosBuilder.Agent.PushComplete

/-!
# A turn of the loop while lines are on their way

The bytes of the command lines that are typed come to the agent little by
little.  What a turn of `serve` does depends on what has come alone: it takes a
line when the CR behind it has come, and an LF that was left behind for a blank
line.
-/

namespace RiscosBuilder.Agent

open RiscosBuilder.Library RiscosBuilder.Library.ByteString
open RiscosBuilder.Library.Packets

/-- The bytes of command lines that are each ended by CR LF. -/
def script (lines : List CommandLine) : List UInt8 :=
  typed (typedCrlf lines)

@[simp] theorem script_nil : script [] = [] :=
  rfl

theorem script_cons (line : CommandLine) (lines : List CommandLine) :
    script (line :: lines) = line.text ++ CR :: LF :: script lines := by
  rw [script, typedCrlf, List.map_cons, typed_cons]
  rfl

theorem iac_not_mem_script (lines : List CommandLine) : IAC ∉ script lines :=
  iac_not_mem_typed _

/-- Each line has a CR of its own, and that is all there are. -/
theorem count_CR_script (lines : List CommandLine) :
    (script lines).count CR = lines.length := by
  induction lines with
  | nil => rfl
  | cons line lines ih =>
      have htext : line.text.count CR = 0 := List.count_eq_zero.mpr line.whole.1
      rw [script_cons, List.count_append, htext, List.count_cons_self,
        List.count_cons_of_ne (by decide), ih, List.length_cons]
      omega

theorem dropTerminator_of_script {seen more : List UInt8}
    {lines : List CommandLine} (split : seen ++ more = script lines) :
    Telnet.dropTerminator seen = seen :=
  dropTerminator_of_front split

/-! ## What has come -/

/-- The lines, behind the LF of an earlier one perhaps. -/
def Awaits (bytes : List UInt8) (lines : List CommandLine) : Prop :=
  bytes = script lines ∨ bytes = LF :: script lines

theorem Awaits.count_CR {bytes : List UInt8} {lines : List CommandLine}
    (awaits : Awaits bytes lines) : bytes.count CR = lines.length := by
  rcases awaits with rfl | rfl
  · exact count_CR_script lines
  · rw [List.count_cons_of_ne (by decide), count_CR_script]

/-- The text of the line that is awaited first. -/
def headText (lines : List CommandLine) : List UInt8 :=
  (lines.head?.map CommandLine.text).getD []

theorem headText_unterminated (lines : List CommandLine) :
    Telnet.Unterminated (headText lines) := by
  cases lines with
  | nil => exact ⟨List.not_mem_nil, List.not_mem_nil⟩
  | cons line lines => exact line.whole

/-- How far the first of the lines has come; the rest is on its way. -/
inductive Come (come rest : List UInt8) : List CommandLine → Prop
  | part {lines : List CommandLine} (front : come <+: headText lines)
      (awaits : Awaits (come ++ rest) lines) : Come come rest lines
  | feed {lines : List CommandLine} (tail : List UInt8)
      (split : come = LF :: tail) (awaits : tail ++ rest = script lines) :
      Come come rest lines
  | line {line : CommandLine} {lines : List CommandLine} (tail : List UInt8)
      (split : come = line.text ++ CR :: tail)
      (awaits : tail ++ rest = LF :: script lines) :
      Come come rest (line :: lines)

theorem Awaits.come {come rest : List UInt8} {lines : List CommandLine}
    (awaits : Awaits (come ++ rest) lines) : Come come rest lines := by
  rcases awaits with same | same
  · cases lines with
    | nil =>
        obtain ⟨rfl, -⟩ := List.append_eq_nil_iff.mp same
        exact .part List.nil_prefix (Or.inl same)
    | cons line lines =>
        rw [script_cons] at same
        rcases List.append_eq_append_iff.mp same with
          ⟨more, htext, hrest⟩ | ⟨more, rfl, hmore⟩
        · exact .part ⟨more, htext.symm⟩ (Or.inl (by rw [same, script_cons]))
        · cases more with
          | nil =>
              exact .part ⟨[], by simp [headText]⟩
                (Or.inl (by rw [same, script_cons]))
          | cons first tail =>
              rw [List.cons_append, List.cons.injEq] at hmore
              obtain ⟨rfl, htail⟩ := hmore
              exact .line tail rfl htail.symm
  · cases come with
    | nil => exact .part List.nil_prefix (Or.inr same)
    | cons first tail =>
        rw [List.cons_append, List.cons.injEq] at same
        obtain ⟨rfl, htail⟩ := same
        exact .feed tail rfl htail

namespace Telnet

/-! ## Reading sends nothing -/

theorem Plain.fillWhile_sent {chan : Telnet} (plain : chan.Plain)
    (short : List UInt8 → Bool) (fuel : Nat) :
    (fillWhile short fuel chan).sock.sent = chan.sock.sent := by
  induction fuel generalizing chan with
  | zero => rfl
  | succ fuel ih =>
      rw [fillWhile]
      split
      · cases harrivals : chan.sock.arrivals with
        | nil =>
            have hended := (fill_ended harrivals).eof
            rw [fillWhile_of_eof hended]
            cases hending : chan.sock.ending <;>
              simp [Telnet.fill, Socket.recv, harrivals, hending]
        | cons chunk later =>
            rw [ih (plain.fill harrivals), (plain.fill_eq harrivals).1]
      · rfl

theorem Plain.readLine_sent {chan : Telnet} (plain : chan.Plain) :
    chan.readLine.2.sock.sent = chan.sock.sent := by
  have hfill := plain.fillWhile_sent (fun buf => (splitLine buf).isNone)
    chan.fillBound
  rw [readLine]
  cases splitLine (fillWhile (fun buf => (splitLine buf).isNone) chan.fillBound
    chan).buf <;> exact hfill

theorem escape_append (first second : List UInt8) :
    escape (first ++ second) = escape first ++ escape second :=
  List.flatMap_append

end Telnet

/-- What `run_command` sends is what the command has printed. -/
theorem runCommand_sent (chan : Telnet) (output : List (List UInt8)) :
    (runCommand chan output).sock.sent =
      chan.sock.sent ++ Telnet.escape output.flatten := by
  induction output generalizing chan with
  | nil => exact (List.append_nil _).symm
  | cons block output ih =>
      rw [List.flatten_cons, Telnet.escape_append, ← List.append_assoc]
      exact ih (chan.write block)

theorem doExtract_of_eof {chan : Telnet} (ended : chan.eof = true)
    (extraction : Extraction) : (doExtract chan extraction).2.eof = true := by
  match extraction with
  | .noDirectory => exact ended
  | .tar steps true => exact runTar_of_eof ended steps
  | .tar steps false =>
      exact Telnet.write_of_eof (runTar_of_eof ended steps) tarDone

/-! ## The turn -/

/--
No `recv` of a turn has to wait: the command line has come, or the host has
`cut` the connection.
-/
def Telnet.Goes (chan : Telnet) (cut : Bool) : Prop :=
  chan.eof = true ∨ cut = true ∨ chan.readLine.2.eof = false

instance (chan : Telnet) (cut : Bool) : Decidable (chan.Goes cut) :=
  inferInstanceAs (Decidable (_ ∨ _))

section Turn

variable {turn : Turn} {chan read : Telnet} {line rest tail : List UInt8}
  {lines : List CommandLine}

/-- Once the stream has ended there is at most one command, and no turn after. -/
theorem turn_of_last (running : chan.eof = false)
    (hread : chan.readLine = (some line, read)) (ended : read.eof = true) :
    (commandsOf (serveTurn turn chan).events = [] ∨
      (strip line ≠ [] ∧
        commandsOf (serveTurn turn chan).events = [strip line])) ∧
      ∀ after, (serveTurn turn chan).next = some after → after.eof = true := by
  by_cases blank : strip line = []
  · rw [serveTurn_blank running hread blank]
    exact ⟨Or.inl rfl, fun after hafter => Option.some.inj hafter ▸ ended⟩
  · cases hparse : parseTarCommand (strip line) with
    | none =>
        rw [serveTurn_command running hread blank hparse]
        exact ⟨Or.inr ⟨blank, rfl⟩, fun after hafter =>
          Option.some.inj hafter ▸ runCommand_of_eof ended turn.output⟩
    | some found =>
        obtain ⟨action, directory⟩ := found
        simp only [serveTurn, running, hread, blank, hparse, if_false,
          Bool.false_eq_true]
        cases action with
        | extract =>
            exact ⟨Or.inl rfl, fun after hafter =>
              Option.some.inj hafter ▸ doExtract_of_eof ended turn.extraction⟩
        | create => exact ⟨Or.inl rfl, by simp⟩

/-- A part of a line is a command only at the end of the stream. -/
theorem turn_of_part (plain : chan.Plain)
    (front : chan.packets.flatten <+: headText lines) :
    chan.readLine.2.eof = true ∧
      (commandsOf (serveTurn turn chan).events = [] ∨
        (strip chan.packets.flatten ≠ [] ∧
          commandsOf (serveTurn turn chan).events =
            [strip chan.packets.flatten])) ∧
      ∀ after, (serveTurn turn chan).next = some after → after.eof = true := by
  have whole : Telnet.Unterminated chan.packets.flatten :=
    ⟨fun cr => (headText_unterminated lines).1 (front.subset cr),
      fun lf => (headText_unterminated lines).2 (front.subset lf)⟩
  obtain ⟨hline, ended⟩ := plain.readLine_last whole
  refine ⟨ended, ?_⟩
  by_cases empty : chan.packets.flatten = []
  · rw [if_pos empty] at hline
    have hread : chan.readLine = (none, chan.readLine.2) := Prod.ext hline rfl
    have hturn : serveTurn turn chan = ⟨[], none⟩ := by
      rw [serveTurn, if_neg (by simp [plain.running]), hread]
    rw [hturn]
    exact ⟨Or.inl rfl, by simp⟩
  · rw [if_neg empty] at hline
    exact turn_of_last plain.running (Prod.ext hline rfl) ended

/-- An LF that was left behind is a blank line. -/
theorem turn_of_feed (plain : chan.Plain)
    (split : chan.packets.flatten = LF :: tail)
    (awaits : tail ++ rest = script lines) :
    chan.readLine.2.eof = false ∧ ∃ after,
      serveTurn turn chan = ⟨[], some after⟩ ∧ after.Plain ∧
        after.packets.flatten ++ rest = script lines ∧
        after.sock.sent = chan.sock.sent ∧
        after.sock.sends = chan.sock.sends := by
  have whole : Telnet.Unterminated [] := ⟨List.not_mem_nil, List.not_mem_nil⟩
  obtain ⟨seen, later, -, htail, hread⟩ := plain.readLine_eq whole split
  have hwhole : seen ++ (later.flatten ++ rest) = script lines := by
    rw [← awaits, ← htail, List.append_assoc]
  have found : Telnet.splitLine ([] ++ LF :: seen) = some ([], seen) := by
    have hdropped := dropTerminator_of_script hwhole
    simp [Telnet.splitLine, Telnet.find, Telnet.rstripCR,
      List.findIdx?_cons, hdropped]
  obtain ⟨hline, hplain, hpackets, hsends⟩ := hread _ _ found
  refine ⟨hplain.running, chan.readLine.2,
    serveTurn_blank plain.running (Prod.ext hline rfl) rfl, hplain, ?_,
    plain.readLine_sent, hsends⟩
  rw [hpackets, List.flatten_cons, List.append_assoc]
  exact hwhole

/-- A line whose CR has come is run. -/
theorem turn_of_line {line : CommandLine} (plain : chan.Plain)
    (split : chan.packets.flatten = line.text ++ CR :: tail)
    (awaits : tail ++ rest = LF :: script lines) :
    chan.readLine.2.eof = false ∧ ∃ after,
      serveTurn turn chan = ⟨[.ran line.text], some after⟩ ∧
        (after.eof = false → after.Plain) ∧
        Awaits (after.packets.flatten ++ rest) lines ∧
        after.sock.sent = chan.sock.sent ++ Telnet.escape turn.output.flatten ∧
        (chan.Answers → after.Answers ∧ after.eof = false) := by
  obtain ⟨seen, later, -, htail, hread⟩ := plain.readLine_eq line.whole split
  have hwhole : seen ++ (later.flatten ++ rest) = LF :: script lines := by
    rw [← awaits, ← htail, List.append_assoc]
  obtain ⟨left, found, hleft⟩ : ∃ left,
      Telnet.splitLine (line.text ++ CR :: seen) = some (line.text, left) ∧
        Awaits (left ++ (later.flatten ++ rest)) lines := by
    cases seen with
    | nil => exact ⟨[], Telnet.splitLine_cr line.whole, Or.inr hwhole⟩
    | cons first seen =>
        rw [List.cons_append, List.cons.injEq] at hwhole
        obtain ⟨rfl, hseen⟩ := hwhole
        refine ⟨seen, ?_, Or.inl hseen⟩
        rw [Telnet.splitLine_crlf line.whole, dropTerminator_of_script hseen]
  obtain ⟨hline, hplain, hpackets, hsends⟩ := hread _ _ found
  obtain ⟨hkept, hgoes, hanswers⟩ :=
    runCommand_reads_nothing chan.readLine.2 turn.output
  have hturn := @serveTurn_command turn chan chan.readLine.2 line.text
    plain.running (Prod.ext hline rfl) (line.trimmed.symm ▸ line.nonblank)
    (line.trimmed.symm ▸ line.command)
  rw [line.trimmed] at hturn
  refine ⟨hplain.running, _, hturn, hgoes hplain, ?_, ?_, fun answers => ?_⟩
  · rw [hkept, hpackets, List.flatten_cons, List.append_assoc]
    exact hleft
  · rw [runCommand_sent, plain.readLine_sent]
  · have hread : chan.readLine.2.Answers := fun ok member =>
      answers ok (hsends ▸ member)
    exact ⟨(hanswers hread).1, (hanswers hread).2.trans hplain.running⟩

/-- A turn that does not meet the end uses up some of what has come. -/
theorem turn_shorter (plain : chan.Plain)
    (awaits : Awaits (chan.packets.flatten ++ rest) lines)
    (goes : chan.readLine.2.eof = false) :
    ∃ after, (serveTurn turn chan).next = some after ∧
      after.packets.flatten.length < chan.packets.flatten.length := by
  cases awaits.come with
  | part front _ =>
      have hends := (@turn_of_part turn _ _ plain front).1
      exact absurd (goes.symm.trans hends) (by decide)
  | feed tail split htail =>
      obtain ⟨-, after, hturn, -, hleft, -⟩ :=
        @turn_of_feed turn _ _ _ _ plain split htail
      refine ⟨after, by rw [hturn], ?_⟩
      rw [split, List.append_cancel_right (hleft.trans htail.symm)]
      exact Nat.lt_succ_self _
  | line tail split htail =>
      obtain ⟨-, after, hturn, -, hleft, -⟩ :=
        @turn_of_line turn _ _ _ _ _ plain split htail
      refine ⟨after, by rw [hturn], ?_⟩
      have htotal := congrArg List.length htail
      rw [split]
      rcases hleft with hleft | hleft <;>
        have hlength := congrArg List.length hleft <;>
        simp only [List.length_append, List.length_cons] at htotal hlength ⊢ <;>
        omega

end Turn

end RiscosBuilder.Agent
