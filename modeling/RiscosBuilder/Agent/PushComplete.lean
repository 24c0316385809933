import RiscosBuilder.Agent.ArchiveReads
import RiscosBuilder.Agent.TypedCommands

/-!
# The session behind a push

What `do_extract` leaves on the channel when `tarfile` has come to the end of an
archive, and what `serve` makes of it.
-/

namespace RiscosBuilder.Agent

open RiscosBuilder.Library RiscosBuilder.Library.Tar
open RiscosBuilder.Library.ByteImage RiscosBuilder.Library.ByteString
open RiscosBuilder.Library.FileImage

namespace Telnet

/--
The channel delivers `data` next and nothing else: some of it is buffered, and
the rest comes with every `IAC` doubled.
-/
structure Delivers (chan : Telnet) (data : List UInt8) : Prop where
  running : chan.eof = false
  wire : ∃ later, chan.remaining = escape later ∧ chan.buf ++ later = data

theorem escape_eq_self {data : List UInt8} (clean : IAC ∉ data) :
    escape data = data := by
  induction data with
  | nil => rfl
  | cons ch data ih =>
      rw [List.mem_cons, not_or] at clean
      rw [escape, List.flatMap_cons, if_neg (Ne.symm clean.1), ← escape,
        ih clean.2]
      rfl

/-- Decoding the front of an escaped stream leaves an escaped stream. -/
theorem scan_escape_front {front back later : List UInt8}
    (split : front ++ back = escape later) :
    ∃ rest, later = (scan front).out ++ rest ∧
      (scan front).raw ++ back = escape rest := by
  induction later generalizing front with
  | nil =>
      obtain ⟨rfl, rfl⟩ := List.append_eq_nil_iff.mp split
      exact ⟨[], by simp, by simp [escape]⟩
  | cons ch later ih =>
      by_cases plain : ch = IAC
      · have hcons : escape (ch :: later) = IAC :: IAC :: escape later := by
          simp [escape, plain]
        cases front with
        | nil => exact ⟨ch :: later, by simp, by simpa using split⟩
        | cons first front =>
            rw [hcons, List.cons_append, List.cons.injEq] at split
            obtain ⟨rfl, split⟩ := split
            cases front with
            | nil =>
                have hstuck : scan [IAC] = ⟨[], [], [IAC]⟩ :=
                  scan_stuck (by decide)
                rw [hstuck]
                refine ⟨ch :: later, rfl, ?_⟩
                rw [hcons, ← split]
                rfl
            | cons second front =>
                rw [List.cons_append, List.cons.injEq] at split
                obtain ⟨rfl, split⟩ := split
                obtain ⟨rest, hout, hrest⟩ := ih split
                rw [scan_of_scanNext (scanNext_escaped front)]
                exact ⟨rest, by rw [plain, hout]; rfl, hrest⟩
      · have hcons : escape (ch :: later) = ch :: escape later := by
          simp [escape, plain]
        cases front with
        | nil => exact ⟨ch :: later, by simp, by simpa using split⟩
        | cons first front =>
            rw [hcons, List.cons_append, List.cons.injEq] at split
            obtain ⟨rfl, split⟩ := split
            obtain ⟨rest, hout, hrest⟩ := ih split
            rw [scan_data plain]
            exact ⟨rest, by rw [hout]; rfl, hrest⟩

/-- Decoding a chunk uses up at most one of the coming `sendall`s. -/
theorem fill_answers {chan : Telnet} (answers : chan.Answers) :
    chan.fill.Answers := by
  obtain ⟨⟨arrivals, ending, sends, sent⟩, buf, raw, eof, undecodable⟩ := chan
  have htail : ∀ ok ∈ sends.tail, ok = true :=
    fun ok member => answers ok (List.mem_of_mem_tail member)
  cases arrivals with
  | nil => cases ending <;> exact answers
  | cons chunk later =>
      obtain ⟨data, nonempty⟩ := chunk
      cases data with
      | nil => exact absurd rfl nonempty
      | cons first others =>
          intro ok member
          simp only [Telnet.fill, Socket.recv] at member
          split at member
          · exact answers ok member
          · exact htail ok member

namespace Delivers

variable {chan : Telnet} {data : List UInt8}

theorem fill (delivers : chan.Delivers data) {chunk : Chunk}
    {later : List Chunk} (harrivals : chan.sock.arrivals = chunk :: later) :
    chan.fill.Delivers data := by
  obtain ⟨coming, hremaining, hdata⟩ := delivers.wire
  have filled := fill_filled harrivals
  have hsplit : (chan.raw ++ Agent.wire [chunk]) ++
      Agent.wire chan.fill.sock.arrivals = escape coming := by
    rw [← hremaining, remaining, filled.arrivals, wire_append, List.append_assoc]
  obtain ⟨rest, hout, hrest⟩ := scan_escape_front hsplit
  refine ⟨filled.eof.trans delivers.running, rest, ?_, ?_⟩
  · rw [remaining, filled.raw, hrest]
  · rw [filled.buf, List.append_assoc, ← hout, hdata]

/-- With no chunk to come, all is buffered. -/
theorem buffered (delivers : chan.Delivers data)
    (harrivals : chan.sock.arrivals = []) : chan.raw = [] ∧ chan.buf = data := by
  obtain ⟨coming, hremaining, hdata⟩ := delivers.wire
  have hraw : chan.raw = escape coming := by
    simpa [remaining, harrivals] using hremaining
  have hscan := chan.scan_raw
  rw [hraw, scan_escape] at hscan
  have hnone : coming = [] := (Scan.mk.inj hscan).1
  subst hnone
  exact ⟨hraw, by simpa using hdata⟩

/-- The loop around `_fill` stops with enough when enough is to come. -/
theorem fillWhile {short : List UInt8 → Bool} (delivers : chan.Delivers data)
    (answers : chan.Answers) (enough : short data = false) :
    (Telnet.fillWhile short chan.fillBound chan).Delivers data ∧
      (Telnet.fillWhile short chan.fillBound chan).Answers ∧
      short (Telnet.fillWhile short chan.fillBound chan).buf = false := by
  induction harrivals : chan.sock.arrivals generalizing chan with
  | nil =>
      have hbuf := (delivers.buffered harrivals).2
      rw [fillWhile_of_enough (hbuf ▸ enough), hbuf]
      exact ⟨delivers, answers, enough⟩
  | cons chunk later ih =>
      cases hshort : short chan.buf with
      | false =>
          rw [fillWhile_of_enough hshort]
          exact ⟨delivers, answers, hshort⟩
      | true =>
          have hleft := (fill_filled harrivals).arrivals
          have hlater : chan.fill.sock.arrivals = later := by
            rw [harrivals, List.singleton_append, List.cons.injEq] at hleft
            exact hleft.2.symm
          rw [fillWhile_of_short harrivals delivers.running hshort]
          exact ih (delivers.fill harrivals) (fill_answers answers) hlater

/-- A read takes its bytes off what is delivered. -/
theorem read {want : Nat} (delivers : chan.Delivers data)
    (answers : chan.Answers) (enough : want ≤ data.length) :
    (chan.read want).2.Delivers (data.drop want) ∧
      (chan.read want).2.Answers := by
  have hshort : decide (data.length < want) = false := by simpa using enough
  obtain ⟨hdelivers, hanswers, hbuf⟩ := @fillWhile _ _
    (fun buf => decide (buf.length < want)) delivers answers hshort
  obtain ⟨coming, hremaining, hdata⟩ := hdelivers.wire
  have hlong : want ≤ (Telnet.fillWhile (fun buf => decide (buf.length < want))
      chan.fillBound chan).buf.length := by
    simpa using hbuf
  refine ⟨⟨hdelivers.running, coming, hremaining, ?_⟩, hanswers⟩
  rw [← hdata, List.drop_append_of_le_length hlong]
  rfl

theorem payload (delivers : chan.Delivers data) : chan.payload = data := by
  obtain ⟨coming, hremaining, hdata⟩ := delivers.wire
  rw [Telnet.payload, upcoming, flushed, hremaining, scan_escape,
    delivers.running, ← hdata]
  cases chan.sock.ending <;> simp

/-- Where no `IAC` is delivered, the wire is plain. -/
theorem plain (delivers : chan.Delivers data) (clean : IAC ∉ data) :
    chan.Plain ∧ chan.packets.flatten = data := by
  obtain ⟨coming, hremaining, hdata⟩ := delivers.wire
  have hclean : IAC ∉ coming := fun member =>
    clean (hdata ▸ List.mem_append_right _ member)
  have hcoming : chan.raw ++ Agent.wire chan.sock.arrivals = coming := by
    rw [escape_eq_self hclean] at hremaining
    exact hremaining
  have hraw : chan.raw = [] := by
    have hplain : IAC ∉ chan.raw := fun member =>
      hclean (hcoming ▸ List.mem_append_left _ member)
    have hscan := chan.scan_raw
    rw [scan_plain hplain] at hscan
    exact (Scan.mk.inj hscan).1
  have hwire : Agent.wire chan.sock.arrivals = coming := by
    simpa [hraw] using hcoming
  refine ⟨⟨delivers.running, hraw, hwire ▸ hclean⟩, ?_⟩
  rw [packets_flatten, hwire, hdata]

end Delivers

end Telnet

/-! ## The push -/

section Push

variable {chan : Telnet} {data : List UInt8}

theorem runTar_delivers {steps : List TarStep} (delivers : chan.Delivers data)
    (answers : chan.Answers) (enough : wanted steps ≤ data.length) :
    (runTar steps chan).2.Delivers (data.drop (wanted steps)) ∧
      (runTar steps chan).2.Answers := by
  induction steps generalizing chan data with
  | nil =>
      rw [wanted, List.drop_zero]
      exact ⟨delivers, answers⟩
  | cons step steps ih =>
      cases step with
      | member name => exact ih delivers answers enough
      | read want =>
          rw [wanted] at enough
          obtain ⟨hdelivers, hanswers⟩ := delivers.read answers
            (Nat.le_trans (Nat.le_add_right want _) enough)
          rw [runTar, wanted, ← List.drop_drop]
          refine ih hdelivers hanswers ?_
          rw [List.length_drop]
          omega

/-- The marker is sent, and takes nothing off the channel. -/
theorem write_delivers (delivers : chan.Delivers data) (answers : chan.Answers)
    (sent : List UInt8) :
    (chan.write sent).Delivers data ∧ (chan.write sent).Answers := by
  obtain ⟨hpackets, hplain, hanswers⟩ := runCommand_reads_nothing chan [sent]
  obtain ⟨hlater, heof⟩ := hanswers answers
  exact ⟨⟨heof.trans delivers.running, delivers.wire⟩, hlater⟩

variable {frombuf : List UInt8 → Info}

/-- A push that succeeds takes whole records off the channel. -/
theorem doExtract_delivers {members : List (Member frombuf)}
    {after : List UInt8} (delivers : chan.Delivers (archive members ++ after))
    (answers : chan.Answers) :
    (doExtract chan (untar frombuf chan.payload)).2.Delivers
        ((archive members ++ after).drop
          (RECORDSIZE * records ((contents members).length + BLOCKSIZE))) ∧
      (doExtract chan (untar frombuf chan.payload)).2.Answers := by
  have hwanted := wanted_untar members after
  have hle := records_le_archive members
  obtain ⟨hdelivers, hanswers⟩ := runTar_delivers delivers answers (by
    rw [hwanted, List.length_append]
    exact Nat.le_trans hle (Nat.le_add_right _ _))
  rw [hwanted] at hdelivers
  rw [delivers.payload, untar, doExtract]
  exact write_delivers hdelivers hanswers tarDone

/-- Command lines, each ended by CR LF. -/
def typedCrlf (lines : List CommandLine) : List (CommandLine × LineEnd) :=
  lines.map fun line => (line, .crlf)

theorem kept_typedCrlf (lines : List CommandLine) (packets : List (List UInt8)) :
    Kept packets (typedCrlf lines) := by
  induction lines generalizing packets with
  | nil => exact trivial
  | cons line lines ih =>
      refine ⟨fun nul => ?_, ih _⟩
      cases nul

/-- With one block left in the record, a record of zeros stays on the channel. -/
theorem doExtract_of_full {members : List (Member frombuf)} {after : List UInt8}
    (delivers : chan.Delivers (archive members ++ after))
    (answers : chan.Answers) (full : blocks members % 20 = 19) :
    (doExtract chan (untar frombuf chan.payload)).2.payload =
      zeros RECORDSIZE ++ after := by
  obtain ⟨hdelivers, -⟩ := doExtract_delivers delivers answers
  rw [hdelivers.payload,
    List.drop_append_of_le_length (records_le_archive members),
    records_of_full full]

/--
A push of any members leaves the channel right behind its archive, whatever
comes there, and `serve` runs the command lines that follow (those ended by CR LF
are always kept), just if the members do not leave a single block of their last
record to the two that end the archive.
-/
theorem push_leaves_iff {members : List (Member frombuf)} {after : List UInt8}
    (delivers : chan.Delivers (archive members ++ after))
    (answers : chan.Answers) :
    ((doExtract chan (untar frombuf chan.payload)).2.eof = false ∧
        (doExtract chan (untar frombuf chan.payload)).2.payload = after ∧
        ∀ lines, after = typed lines →
          Kept (doExtract chan (untar frombuf chan.payload)).2.packets lines →
          ∀ world, Runs world (doExtract chan (untar frombuf chan.payload)).2
            (texts lines)) ↔
      blocks members % 20 ≠ 19 := by
  constructor
  · rintro ⟨-, hpayload, -⟩ full
    rw [doExtract_of_full delivers answers full] at hpayload
    have hlength := congrArg List.length hpayload
    rw [List.length_append, zeros, List.length_replicate, RECORDSIZE,
      BLOCKSIZE] at hlength
    omega
  · intro room
    obtain ⟨hdelivers, hanswers⟩ := doExtract_delivers delivers answers
    rw [records_of_room room, List.drop_left] at hdelivers
    refine ⟨hdelivers.running, hdelivers.payload, fun lines split kept world => ?_⟩
    subst split
    obtain ⟨hplain, hpackets⟩ := hdelivers.plain (iac_not_mem_typed _)
    exact (runs_iff_kept hplain hanswers hpackets world).mpr kept

end Push

/-! ## Two pushes -/

theorem opened_delivers {chunks : List Chunk} {data : List UInt8}
    (sent : wire chunks = Telnet.escape data) (ending : Ending)
    (sends : List Bool) : (Telnet.opened chunks ending sends).Delivers data :=
  ⟨rfl, data, sent, rfl⟩

/-- The header block of a file `a`, with its size and its checksum. -/
def ustarHeader (size checksum : List UInt8) : List UInt8 :=
  ascii "./a" ++ zeros 97 ++ ascii "0000644" ++ [0] ++ ascii "0000000" ++ [0] ++
    ascii "0000000" ++ [0] ++ size ++ [0] ++ ascii "00000000000" ++ [0] ++
    checksum ++ [0, 0x20, 0x30] ++ zeros 100 ++ ascii "ustar" ++ [0] ++
    ascii "00" ++ zeros 247

/-- The name and the octal size in a header block. -/
def ustarInfo (header : List UInt8) : Info where
  name := (header.take 100).takeWhile fun byte => byte ≠ 0
  size := (slice header 124 135).foldl
    (fun size digit => 8 * size + (digit.toNat - 48)) 0

/-- A file that holds one byte. -/
def fileA : Member ustarInfo where
  header := ustarHeader (ascii "00000000001") (ascii "006234")
  data := [65]
  header_length := by decide +kernel
  header_ne := by decide +kernel
  header_size := by decide +kernel

/-- An empty file. -/
def fileEmpty : Member ustarInfo where
  header := ustarHeader (ascii "00000000000") (ascii "006233")
  data := []
  header_length := by decide +kernel
  header_ne := by decide +kernel
  header_size := by decide +kernel

/-- The archive of `fileA` and a command line behind it, in one chunk. -/
def pushA : Telnet :=
  .opened [⟨Telnet.escape (archive [fileA] ++ typed (typedCrlf [commandA])),
    by decide +kernel⟩] .closed []

theorem push_leaves_iff_one_file :
    (doExtract pushA (untar ustarInfo pushA.payload)).2.eof = false ∧
      (doExtract pushA (untar ustarInfo pushA.payload)).2.payload =
        typed (typedCrlf [commandA]) ∧
      ∀ world, Runs world (doExtract pushA (untar ustarInfo pushA.payload)).2
        (texts (typedCrlf [commandA])) := by
  have hdelivers : pushA.Delivers
      (archive [fileA] ++ typed (typedCrlf [commandA])) :=
    opened_delivers (List.append_nil _) .closed []
  have hanswers : pushA.Answers := by
    intro ok member
    cases member
  obtain ⟨running, hpayload, runs⟩ :=
    (push_leaves_iff hdelivers hanswers).mpr (by decide)
  exact ⟨running, hpayload, runs _ rfl (kept_typedCrlf _ _)⟩

/-- The archive of nineteen empty files. -/
def pushNineteen : Telnet :=
  .opened [⟨Telnet.escape (archive (List.replicate 19 fileEmpty) ++ []),
    by decide +kernel⟩] .closed []

/-- Nineteen empty files leave a record of zeros on the channel. -/
theorem push_leaves_iff_not_nineteen :
    ¬ ∀ (members : List (Member ustarInfo)) (lines : List CommandLine)
        (chan : Telnet),
      chan.Delivers (archive members ++ typed (typedCrlf lines)) →
      chan.Answers →
      (doExtract chan (untar ustarInfo chan.payload)).2.payload =
        typed (typedCrlf lines) := by
  intro leaves
  have hdelivers : pushNineteen.Delivers
      (archive (List.replicate 19 fileEmpty) ++ []) :=
    opened_delivers (List.append_nil _) .closed []
  have hanswers : pushNineteen.Answers := by
    intro ok member
    cases member
  have hleft := doExtract_of_full hdelivers hanswers (by decide)
  have hlength := congrArg List.length
    (hleft.symm.trans (leaves _ [] pushNineteen hdelivers hanswers))
  rw [List.length_append, zeros, List.length_replicate] at hlength
  exact absurd hlength (by decide)

end RiscosBuilder.Agent
