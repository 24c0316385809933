import RiscosBuilder.Agent.Commands
import RiscosBuilder.Agent.TypedLines

/-!
# A session of typed commands

A line ended by CR NUL is merged with what follows it when an LF has come as
well, and it leaves the NUL behind when that has not come yet.  In all other
sessions each line is run as it was typed.
-/

namespace RiscosBuilder.Agent

open RiscosBuilder.Library RiscosBuilder.Library.ByteString
open RiscosBuilder.Library.Packets

/-! ## A line that is dispatched -/

theorem dropTerminator_of_front {seen more : List UInt8}
    {lines : List (CommandLine × LineEnd)} (split : seen ++ more = typed lines) :
    Telnet.dropTerminator seen = seen := by
  rw [Telnet.dropTerminator_eq_self_iff]
  cases seen with
  | nil => exact ⟨by simp, by simp⟩
  | cons first seen =>
      cases lines with
      | nil => simp [typed] at split
      | cons line lines =>
          obtain ⟨line, ending⟩ := line
          rw [typed_cons] at split
          cases htext : line.text with
          | nil => exact absurd htext line.nonblank
          | cons head text =>
              rw [htext, List.cons_append, List.cons_append,
                List.cons.injEq] at split
              obtain ⟨rfl, -⟩ := split
              have hmem : first ∈ line.text := by simp [htext]
              constructor
              · rintro same
                exact line.whole.2 (Option.some.inj same ▸ hmem)
              · rintro same
                exact line.noNul (Option.some.inj same ▸ hmem)

section Line

variable {world : Nat → Turn} {chan : Telnet} {line : CommandLine}
  {tail seen rest : List UInt8} {later : List (List UInt8)}
  {lines : List (CommandLine × LineEnd)}

/-- The turn that takes a line out of what has come. -/
theorem dispatched_of_split (plain : chan.Plain)
    (split : chan.packets.flatten = line.text ++ CR :: tail)
    (hadvance : advance chan.packets (line.text.length + 1) = seen :: later)
    (found : Telnet.splitLine (line.text ++ CR :: seen) =
      some (line.text, rest)) :
    ∃ after, (∀ turns, commands world (turns + 1) chan =
        line.text :: commands (fun n => world (n + 1)) turns after) ∧
      after.packets = rest :: later ∧ (after.eof = false → after.Plain) ∧
      (chan.Answers → after.Answers ∧ after.eof = false) := by
  obtain ⟨seen', later', hadvance', -, hread⟩ := plain.readLine_eq line.whole split
  rw [hadvance, List.cons.injEq] at hadvance'
  obtain ⟨rfl, rfl⟩ := hadvance'
  obtain ⟨hline, hplain, hpackets, hsends⟩ := hread _ _ found
  obtain ⟨hkept, hgoes, hanswers⟩ :=
    runCommand_reads_nothing chan.readLine.2 (world 0).output
  have hturn := @serveTurn_command (world 0) chan chan.readLine.2 line.text
    plain.running (Prod.ext hline rfl) (line.trimmed.symm ▸ line.nonblank)
    (line.trimmed.symm ▸ line.command)
  refine ⟨_, fun turns => ?_, hkept.trans hpackets, hgoes hplain,
    fun answers => ?_⟩
  · rw [commands_of_next hturn, line.trimmed]
    rfl
  · have hread : chan.readLine.2.Answers := fun ok member =>
      answers ok (hsends ▸ member)
    exact ⟨(hanswers hread).1, (hanswers hread).2.trans hplain.running⟩

/-- A line is dispatched in one turn where its whole ending has come. -/
theorem dispatched_at_once (plain : chan.Plain)
    (split : chan.packets.flatten = line.text ++ CR :: tail) {second : UInt8}
    (hadvance : advance chan.packets (line.text.length + 1) =
      (second :: seen) :: later)
    (found : Telnet.splitLine (line.text ++ CR :: second :: seen) =
      some (line.text, seen)) :
    ∃ after, Dispatched world chan line.text after ∧ (after.eof = true ∨
      (after.Plain ∧
        after.packets = advance chan.packets (line.text.length + 2))) := by
  obtain ⟨after, hturns, hpackets, hplain, hanswers⟩ :=
    @dispatched_of_split world _ _ _ _ _ _ plain split hadvance found
  refine ⟨after, ⟨hanswers, 1, _, hturns⟩, ?_⟩
  cases heof : after.eof with
  | true => exact Or.inl rfl
  | false =>
      refine Or.inr ⟨hplain heof, ?_⟩
      rw [hpackets, ← advance_advance 1 Nat.one_pos, hadvance,
        advance_of_le (by simp)]
      rfl

/-- A line ended by CR LF is dispatched, wherever the chunks are cut. -/
theorem dispatched_crlf (plain : chan.Plain)
    (split : chan.packets.flatten = line.text ++ CR :: LF :: typed lines) :
    ∃ after, Dispatched world chan line.text after ∧ (after.eof = true ∨
      (after.Plain ∧
        after.packets = advance chan.packets (line.text.length + 2))) := by
  obtain ⟨seen, later, hadvance, htail, -⟩ :=
    plain.readLine_eq line.whole split
  cases seen with
  | cons first seen =>
      rw [List.cons_append, List.cons.injEq] at htail
      obtain ⟨rfl, htail⟩ := htail
      have found := Telnet.splitLine_crlf line.whole seen
      rw [dropTerminator_of_front htail] at found
      exact dispatched_at_once plain split hadvance found
  | nil =>
      obtain ⟨after, hturns, hpackets, hplain, hanswers⟩ :=
        @dispatched_of_split world _ _ _ _ _ _ plain split hadvance
          (Telnet.splitLine_cr line.whole)
      cases heof : after.eof with
      | true => exact ⟨after, ⟨hanswers, 1, _, hturns⟩, Or.inl heof⟩
      | false =>
          -- The LF comes later, and `serve` takes it for a blank line.
          have hflatten : after.packets.flatten = [] ++ LF :: typed lines := by
            rw [hpackets]
            exact htail
          obtain ⟨more, last, hmore, hlast, hread⟩ :=
            (hplain heof).readLine_eq ⟨by simp, by simp⟩ hflatten
          have found : Telnet.splitLine ([] ++ LF :: more) = some ([], more) := by
            have hdropped := dropTerminator_of_front hlast
            simp [Telnet.splitLine, Telnet.find, Telnet.rstripCR,
              List.findIdx?_cons, hdropped]
          obtain ⟨hline, hplain2, hpackets2, hsends⟩ := hread _ _ found
          have hblank := @serveTurn_blank (world 1) after after.readLine.2 []
            heof (Prod.ext hline rfl) rfl
          refine ⟨after.readLine.2, ⟨fun answers => ⟨?_, hplain2.running⟩, 2,
            fun n => world (n + 2), fun turns => ?_⟩, Or.inr ⟨hplain2, ?_⟩⟩
          · exact fun ok member => (hanswers answers).1 ok (hsends ▸ member)
          · have hnext := @commands_of_next (fun n => world (n + 1)) after
              after.readLine.2 [] hblank turns
            rw [hturns (turns + 1), hnext]
            rfl
          · rw [hpackets2, ← advance_advance 1 Nat.one_pos, hadvance, ← hpackets]
            exact hmore.symm

/-- A line ended by CR NUL is dispatched when its terminator comes as it should. -/
theorem dispatched_crnul (plain : chan.Plain)
    (split : chan.packets.flatten = line.text ++ CR :: NUL :: typed lines)
    (nul : behind chan.packets (line.text.length + 1) ≠ [])
    (lf : LF ∉ behind chan.packets (line.text.length + 1)) :
    ∃ after, Dispatched world chan line.text after ∧ (after.eof = true ∨
      (after.Plain ∧
        after.packets = advance chan.packets (line.text.length + 2))) := by
  obtain ⟨seen, later, hadvance, htail, -⟩ :=
    plain.readLine_eq line.whole split
  rw [behind, hadvance, List.headD_cons] at nul lf
  cases seen with
  | nil => exact absurd rfl nul
  | cons first seen =>
      rw [List.cons_append, List.cons.injEq] at htail
      obtain ⟨rfl, htail⟩ := htail
      have found := Telnet.splitLine_cr_seen line.whole lf
      have hdrop : Telnet.dropTerminator (NUL :: seen) = seen := rfl
      rw [hdrop] at found
      exact dispatched_at_once plain split hadvance found

end Line

/-! ## What goes wrong -/

/-- Were the line read a transfer, what is left would not hold the lines. -/
theorem not_runs_of_nul {world : Nat → Turn} {chan read : Telnet}
    {line : List UInt8} {lines : List (List UInt8)} (running : chan.eof = false)
    (hread : chan.readLine = (some line, read)) (nul : NUL ∈ line)
    (clean : ∀ text ∈ lines, NUL ∉ text)
    (lost : ¬ lines.flatten.Sublist read.payload) : ¬ Runs world chan lines := by
  rintro ⟨enough, hall⟩
  have hlines := hall (enough + 1) (Nat.le_succ _)
  have hstrip : NUL ∈ strip line := mem_strip rfl nul
  have nonblank : strip line ≠ [] := List.ne_nil_of_mem hstrip
  rw [commands_succ] at hlines
  cases hparse : parseTarCommand (strip line) with
  | none =>
      rw [serveTurn_command running hread nonblank hparse] at hlines
      exact clean (strip line) (hlines ▸ List.mem_cons_self) hstrip
  | some found =>
      obtain ⟨action, directory⟩ := found
      cases action with
      | create =>
          have hturn : serveTurn (world 0) chan =
              ⟨[.pulled directory], none⟩ := by
            simp [serveTurn, running, hread, nonblank, hparse]
          rw [hturn] at hlines
          have hnone : [] = lines := hlines
          exact lost (hnone ▸ List.nil_sublist _)
      | extract =>
          have hturn : serveTurn (world 0) chan =
              ⟨[.pushed directory (doExtract read (world 0).extraction).1],
                some (doExtract read (world 0).extraction).2⟩ := by
            simp [serveTurn, running, hread, nonblank, hparse]
          rw [hturn] at hlines
          change commands _ _ (doExtract read (world 0).extraction).2 = lines
            at hlines
          rcases doExtract_payload read (world 0).extraction with
            ended | suffix
          · rw [commands_of_eof ended] at hlines
            exact lost (hlines ▸ List.nil_sublist _)
          · exact lost (hlines ▸ (commands_sublist _ _ _).trans suffix.sublist)

section Line

variable {world : Nat → Turn} {chan : Telnet} {line : CommandLine}
  {lines : List (CommandLine × LineEnd)}

/-- A NUL that was left behind is run, or is run in front of the next line. -/
theorem not_runs_of_left_nul (plain : chan.Plain)
    (split : chan.packets.flatten = NUL :: typed lines) :
    ¬ Runs world chan (texts lines) := by
  cases lines with
  | nil =>
      have hflatten : chan.packets.flatten = [NUL] := split
      obtain ⟨hline, -⟩ := plain.readLine_last
        (hflatten.symm ▸ ⟨by decide, by decide⟩)
      rw [hflatten] at hline
      rintro ⟨enough, hall⟩
      have hlines := hall (enough + 1) (Nat.le_succ _)
      have hturn := @serveTurn_command (world 0) chan chan.readLine.2 [NUL]
        plain.running (Prod.ext hline rfl) (by decide) (by decide)
      rw [commands_of_next hturn] at hlines
      exact List.cons_ne_nil _ _ hlines
  | cons first lines =>
      obtain ⟨line, ending⟩ := first
      have whole : Telnet.Unterminated (NUL :: line.text) := by
        constructor <;> rw [List.mem_cons, not_or]
        · exact ⟨by decide, line.whole.1⟩
        · exact ⟨by decide, line.whole.2⟩
      rw [typed_cons, ← List.cons_append] at split
      obtain ⟨seen, later, -, htail, hread⟩ := plain.readLine_eq whole split
      obtain ⟨found, rest, hfound⟩ := @Telnet.splitLine_isSome
        ((NUL :: line.text) ++ CR :: seen) (Or.inl (by simp))
      obtain ⟨⟨middle, rfl⟩, hrest⟩ :=
        Telnet.splitLine_beyond whole.2 (Or.inl whole.1) hfound
      obtain ⟨hline, hplain, hpackets, -⟩ := hread _ _ hfound
      refine not_runs_of_nul plain.running (Prod.ext hline rfl)
        (mem_rdropWhile (by decide) (by simp))
        (fun text member => noNul_of_mem_texts member) fun lost => ?_
      have hpayload : chan.readLine.2.payload <:+
          CR :: ending.second :: typed lines := by
        rw [hplain.payload, hpackets, List.flatten_cons, ← htail,
          ← List.cons_append]
        obtain ⟨front, hfront⟩ := hrest
        exact ⟨front, by rw [← List.append_assoc, hfront]⟩
      exact not_sublist_later (filter_ending ending lines)
        (lost.trans hpayload.sublist)

/-- A line that is merged with others is not run. -/
theorem not_runs_of_merged (plain : chan.Plain)
    (split : chan.packets.flatten = line.text ++ CR :: NUL :: typed lines)
    (lf : LF ∈ behind chan.packets (line.text.length + 1)) :
    ¬ Runs world chan (texts ((line, .crnul) :: lines)) := by
  obtain ⟨seen, later, hadvance, htail, hread⟩ :=
    plain.readLine_eq line.whole split
  rw [behind, hadvance, List.headD_cons] at lf
  cases seen with
  | nil => simp at lf
  | cons first seen =>
      rw [List.cons_append, List.cons.injEq] at htail
      obtain ⟨rfl, htail⟩ := htail
      have hlf : LF ∉ line.text ++ [CR, NUL] := by
        simp only [List.mem_append, List.mem_cons, List.not_mem_nil, or_false]
        rintro (member | same | same)
        · exact line.whole.2 member
        · exact absurd same (by decide)
        · exact absurd same (by decide)
      have hseen : LF ∈ seen := by
        rw [List.mem_cons] at lf
        exact lf.resolve_left (by decide)
      have hsplit : line.text ++ CR :: NUL :: seen =
          (line.text ++ [CR, NUL]) ++ seen := by
        simp
      obtain ⟨found, rest, hfound⟩ := @Telnet.splitLine_isSome
        (line.text ++ CR :: NUL :: seen) (Or.inl (by simp))
      obtain ⟨hline, hplain, hpackets, -⟩ := hread _ _ hfound
      rw [hsplit] at hfound
      obtain ⟨⟨middle, rfl⟩, hrest⟩ :=
        Telnet.splitLine_beyond hlf (Or.inr hseen) hfound
      refine not_runs_of_nul plain.running (Prod.ext hline rfl)
        (mem_rdropWhile (by decide) (by simp))
        (fun text member => noNul_of_mem_texts member) fun lost => ?_
      have hpayload : chan.readLine.2.payload <:+ typed lines := by
        rw [hplain.payload, hpackets, List.flatten_cons, ← htail]
        obtain ⟨front, hfront⟩ := hrest
        exact ⟨front, by rw [← List.append_assoc, hfront]⟩
      exact not_sublist_later (filter_typed lines) (lost.trans hpayload.sublist)

end Line

/-! ## The session -/

theorem flatten_after {chan after : Telnet} {line : CommandLine}
    {ending : LineEnd} {lines : List (CommandLine × LineEnd)}
    (split : chan.packets.flatten = typed ((line, ending) :: lines))
    (packets : after.packets =
      advance chan.packets (line.text.length + 2)) :
    after.packets.flatten = typed lines := by
  rw [packets, flatten_advance, split, typed_cons, ← List.drop_drop,
    List.drop_left]
  rfl

/-- With nothing to come the loop is left. -/
theorem commands_of_empty {chan : Telnet} (plain : chan.Plain)
    (split : chan.packets.flatten = []) (world : Nat → Turn) (turns : Nat) :
    commands world turns chan = [] := by
  cases turns with
  | zero => rfl
  | succ turns =>
      obtain ⟨hline, -⟩ := plain.readLine_last (split.symm ▸ ⟨by simp, by simp⟩)
      rw [split, if_pos rfl] at hline
      have hread : chan.readLine = (none, chan.readLine.2) := Prod.ext hline rfl
      have hturn : serveTurn (world 0) chan = ⟨[], none⟩ := by
        rw [serveTurn, if_neg (by simp [plain.running]), hread]
      rw [commands_succ, hturn]
      rfl

/-- A kept line is dispatched, whatever its end. -/
theorem dispatched_of_kept {world : Nat → Turn} {chan : Telnet}
    {line : CommandLine} {ending : LineEnd}
    {lines : List (CommandLine × LineEnd)} (plain : chan.Plain)
    (split : chan.packets.flatten = typed ((line, ending) :: lines))
    (kept : ending = .crnul →
      behind chan.packets (line.text.length + 1) ≠ [] ∧
        LF ∉ behind chan.packets (line.text.length + 1)) :
    ∃ after, Dispatched world chan line.text after ∧ (after.eof = true ∨
      (after.Plain ∧
        after.packets = advance chan.packets (line.text.length + 2))) := by
  rw [typed_cons] at split
  cases ending with
  | crlf => exact dispatched_crlf plain split
  | crnul => exact dispatched_crnul plain split (kept rfl).1 (kept rfl).2

/-- Kept lines are dispatched until the session ends. -/
theorem commands_prefix {chan : Telnet} {lines : List (CommandLine × LineEnd)}
    (plain : chan.Plain) (split : chan.packets.flatten = typed lines)
    (kept : Kept chan.packets lines) (world : Nat → Turn) (turns : Nat) :
    commands world turns chan <+: texts lines := by
  induction lines generalizing chan world turns with
  | nil =>
      rw [commands_of_empty plain split]
      exact List.nil_prefix
  | cons first lines ih =>
      obtain ⟨line, ending⟩ := first
      obtain ⟨after, dispatched, hafter⟩ :=
        @dispatched_of_kept world _ _ _ _ plain split kept.1
      refine dispatched.prefix_of (fun later turns => ?_) turns
      rcases hafter with ended | ⟨hplain, hpackets⟩
      · rw [commands_of_eof ended]
        exact List.nil_prefix
      · exact ih hplain (flatten_after split hpackets)
          (hpackets ▸ kept.2) later turns

/-- A line that is not kept is not dispatched, or a command too many is. -/
theorem not_runs_of_not_kept {world : Nat → Turn} {chan : Telnet}
    {line : CommandLine} {lines : List (CommandLine × LineEnd)}
    (plain : chan.Plain) (answers : chan.Answers)
    (split : chan.packets.flatten = typed ((line, .crnul) :: lines))
    (lost : ¬ (behind chan.packets (line.text.length + 1) ≠ [] ∧
      LF ∉ behind chan.packets (line.text.length + 1))) :
    ¬ Runs world chan (texts ((line, .crnul) :: lines)) := by
  rw [typed_cons] at split
  by_cases lf : LF ∈ behind chan.packets (line.text.length + 1)
  · exact not_runs_of_merged plain split lf
  · obtain ⟨seen, later, hadvance, htail, -⟩ :=
      plain.readLine_eq line.whole split
    have hseen : seen = [] := by
      by_contra some
      rw [behind, hadvance, List.headD_cons] at lost lf
      exact lost ⟨some, lf⟩
    subst hseen
    obtain ⟨after, hturns, hpackets, hplain, hanswers⟩ :=
      @dispatched_of_split world _ _ _ _ _ _ plain split hadvance
        (Telnet.splitLine_cr line.whole)
    have dispatched : Dispatched world chan line.text after :=
      ⟨hanswers, 1, _, hturns⟩
    obtain ⟨rest, hruns⟩ := dispatched.runs_iff
    rw [texts_cons, hruns]
    refine not_runs_of_left_nul (hplain (hanswers answers).2) ?_
    rw [hpackets]
    exact htail

/-- The lines are run exactly when they are kept. -/
theorem runs_iff_kept {chan : Telnet} {lines : List (CommandLine × LineEnd)}
    (plain : chan.Plain) (answers : chan.Answers)
    (split : chan.packets.flatten = typed lines) (world : Nat → Turn) :
    Runs world chan (texts lines) ↔ Kept chan.packets lines := by
  induction lines generalizing chan world with
  | nil =>
      exact iff_of_true
        ⟨0, fun turns _ => commands_of_empty plain split world turns⟩ trivial
  | cons first lines ih =>
      obtain ⟨line, ending⟩ := first
      by_cases kept : ending = .crnul →
        behind chan.packets (line.text.length + 1) ≠ [] ∧
          LF ∉ behind chan.packets (line.text.length + 1)
      · obtain ⟨after, dispatched, hafter⟩ :=
          @dispatched_of_kept world _ _ _ _ plain split kept
        obtain ⟨hanswers, running⟩ := dispatched.answers answers
        obtain ⟨hplain, hpackets⟩ :=
          hafter.resolve_left (by simp [running])
        obtain ⟨later, hruns⟩ := dispatched.runs_iff
        rw [texts_cons, hruns, ih hplain hanswers
          (flatten_after split hpackets), hpackets]
        exact (and_iff_right kept).symm
      · refine iff_of_false ?_ fun all => kept all.1
        obtain ⟨rfl, lost⟩ := Classical.not_imp.mp kept
        exact not_runs_of_not_kept plain answers split lost

theorem opened_plain {chunks : List Chunk}
    {lines : List (CommandLine × LineEnd)} (sent : wire chunks = typed lines)
    (ending : Ending) (sends : List Bool) :
    (Telnet.opened chunks ending sends).Plain := by
  refine ⟨rfl, rfl, ?_⟩
  change IAC ∉ wire chunks
  rw [sent]
  exact iac_not_mem_typed lines

/-- A buffer that is empty yet holds nothing of any line. -/
theorem kept_cons_nil (packets : List (List UInt8))
    (lines : List (CommandLine × LineEnd)) :
    Kept ([] :: packets) lines ↔ Kept packets lines := by
  cases lines with
  | nil => rfl
  | cons first lines =>
      obtain ⟨line, ending⟩ := first
      have hadvance : ∀ size, advance ([] :: packets) (size + 1) =
          advance packets (size + 1) := fun size => advance_of_lt (by simp)
      simp only [Kept, behind, hadvance]

/--
A session runs the lines that were typed, each once and in order, exactly when
every chunk that brings the CR of a line ended by CR NUL brings its NUL, and no
LF behind it.  A `sendall` that raises only ends the session early.
-/
theorem session_dispatches {lines : List (CommandLine × LineEnd)}
    {chunks : List Chunk} (sent : wire chunks = typed lines) (ending : Ending)
    (sends : List Bool) (world : Nat → Turn) :
    ((∀ ok ∈ sends, ok = true) →
      (Runs world (Telnet.opened chunks ending sends) (texts lines) ↔
        Kept (chunks.map Subtype.val) lines)) ∧
    (Kept (chunks.map Subtype.val) lines → ∀ turns,
      commands world turns (Telnet.opened chunks ending sends) <+:
        texts lines) := by
  have plain := opened_plain sent ending sends
  have hpackets : (Telnet.opened chunks ending sends).packets =
      [] :: chunks.map Subtype.val := rfl
  have split : (Telnet.opened chunks ending sends).packets.flatten =
      typed lines := sent
  rw [← kept_cons_nil, ← hpackets]
  exact ⟨fun answers => runs_iff_kept plain answers split world,
    fun kept turns => commands_prefix plain split kept world turns⟩

/-- The commands `a` and `b`. -/
def commandA : CommandLine :=
  ⟨[0x61], by decide, by decide, ⟨by decide, by decide⟩, by decide, by decide,
    by decide⟩

def commandB : CommandLine :=
  ⟨[0x62], by decide, by decide, ⟨by decide, by decide⟩, by decide, by decide,
    by decide⟩

/-- Cut behind the NUL and inside the CR LF, both commands are run. -/
theorem session_dispatches_cut :
    Runs (fun _ => ⟨[], .noDirectory⟩)
      (Telnet.opened [⟨[0x61, CR, NUL], by decide⟩, ⟨[0x62, CR], by decide⟩,
        ⟨[LF], by decide⟩] .closed [])
      [[0x61], [0x62]] :=
  ((@session_dispatches [(commandA, .crnul), (commandB, .crlf)]
    [⟨[0x61, CR, NUL], by decide⟩, ⟨[0x62, CR], by decide⟩, ⟨[LF], by decide⟩]
    rfl .closed [] fun _ => ⟨[], .noDirectory⟩).1 (by simp)).mpr (by decide)

/-- In one chunk they are merged; with the NUL cut off it is run on its own. -/
theorem session_dispatches_merged :
    ¬ Runs (fun _ => ⟨[], .noDirectory⟩)
        (Telnet.opened [⟨[0x61, CR, NUL, 0x62, CR, LF], by decide⟩] .closed [])
        [[0x61], [0x62]] ∧
      ¬ Runs (fun _ => ⟨[], .noDirectory⟩)
        (Telnet.opened [⟨[0x61, CR], by decide⟩, ⟨[NUL], by decide⟩] .closed [])
        [[0x61]] := by
  constructor
  · have hiff := @runs_iff_kept
      (Telnet.opened [⟨[0x61, CR, NUL, 0x62, CR, LF], by decide⟩] .closed [])
      [(commandA, .crnul), (commandB, .crlf)] ⟨rfl, rfl, by decide⟩
      (fun ok member => by simp [Telnet.opened, Telnet.connect] at member) rfl
      fun _ => ⟨[], .noDirectory⟩
    exact fun runs => absurd (hiff.mp runs) (by decide)
  · have hiff := @runs_iff_kept
      (Telnet.opened [⟨[0x61, CR], by decide⟩, ⟨[NUL], by decide⟩] .closed [])
      [(commandA, .crnul)] ⟨rfl, rfl, by decide⟩
      (fun ok member => by simp [Telnet.opened, Telnet.connect] at member) rfl
      fun _ => ⟨[], .noDirectory⟩
    exact fun runs => absurd (hiff.mp runs) (by decide)

end RiscosBuilder.Agent
