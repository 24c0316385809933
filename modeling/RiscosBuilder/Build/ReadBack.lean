import RiscosBuilder.Build.TelnetExec
import RiscosBuilder.Library.Pairs
import RiscosBuilder.Library.Reassembly

/-!
# Reading back what the agent wrote

The agent doubles every `IAC` that it writes, and answers negotiations.  The
builder gets the written bytes back as long as no result of `recv` ends inside
a doubled `IAC` or inside an answer.
-/

namespace RiscosBuilder.Build

open RiscosBuilder.Agent RiscosBuilder.Library

/-- What the agent sends: the argument of a `Telnet.write`, or an answer. -/
inductive Sent where
  | written (data : List UInt8)
  | answer (cmd opt : UInt8) (takes : IsNegotiation cmd)

/-- The bytes that `sendall` is handed for it. -/
def Sent.wire : Sent → List UInt8
  | .written data => Telnet.escape data
  | .answer cmd opt _ => [IAC, cmd, opt]

/-- The bytes that are to be read back. -/
def Sent.payload : Sent → List UInt8
  | .written data => data
  | .answer _ _ _ => []

/-- What a receiver has to find whole: a byte with its escape, or an answer. -/
inductive Piece where
  | byte (b : UInt8)
  | answer (cmd opt : UInt8) (takes : IsNegotiation cmd)

namespace Piece

def encode : Piece → List UInt8
  | .byte b => Telnet.escape [b]
  | .answer cmd opt _ => [IAC, cmd, opt]

def payload : Piece → List UInt8
  | .byte b => [b]
  | .answer _ _ _ => []

theorem encode_length_pos (piece : Piece) : 1 ≤ piece.encode.length := by
  cases piece with
  | byte b =>
      by_cases plain : b = IAC <;> simp [encode, Telnet.escape, plain]
  | answer cmd opt takes => simp [encode]

/-- A cut behind the first byte of a piece and in front of its end is inside. -/
def coding : Reassembly.Coding UInt8 Piece where
  bytes := encode
  ready := fun _ => 1
  ready_le := encode_length_pos

/-- The answer refuses or accepts some option other than 255. -/
def PlainOption : Piece → Prop
  | .byte _ => True
  | .answer _ opt _ => opt ≠ IAC

/-- A byte without an escape. -/
def Bare : Piece → Prop
  | .byte b => b ≠ IAC
  | .answer _ _ _ => False

theorem Bare.encode_length {piece : Piece} (bare : piece.Bare) :
    piece.encode.length = 1 := by
  cases piece with
  | byte b =>
      have plain : b ≠ IAC := bare
      simp [encode, Telnet.escape, plain]
  | answer cmd opt takes => exact bare.elim

end Piece

/-- The pieces of what is sent. -/
def Sent.pieces : Sent → List Piece
  | .written data => data.map .byte
  | .answer cmd opt takes => [.answer cmd opt takes]

/-- The pieces one behind the other. -/
abbrev stream (pieces : List Piece) : List UInt8 :=
  Piece.coding.stream pieces

def payloadOf (pieces : List Piece) : List UInt8 :=
  pieces.flatMap Piece.payload

/-- No result of `recv` ends inside a piece. -/
def Uncut (pieces : List Piece) (chunks : List (List UInt8)) : Prop :=
  Piece.coding.Uncut [] pieces chunks

theorem stream_cons (piece : Piece) (pieces : List Piece) :
    stream (piece :: pieces) = piece.encode ++ stream pieces :=
  List.flatMap_cons

theorem stream_byte {b : UInt8} (plain : b ≠ IAC) (pieces : List Piece) :
    stream (.byte b :: pieces) = b :: stream pieces := by
  simp [stream_cons, Piece.encode, Telnet.escape, plain]

theorem stream_IAC (pieces : List Piece) :
    stream (.byte IAC :: pieces) = IAC :: IAC :: stream pieces := by
  simp [stream_cons, Piece.encode, Telnet.escape]

theorem stream_answer {cmd opt : UInt8} {takes : IsNegotiation cmd}
    (pieces : List Piece) :
    stream (.answer cmd opt takes :: pieces) =
      IAC :: cmd :: opt :: stream pieces := by
  simp [stream_cons, Piece.encode]

@[simp] theorem payloadOf_byte (b : UInt8) (pieces : List Piece) :
    payloadOf (.byte b :: pieces) = b :: payloadOf pieces := by
  simp [payloadOf, Piece.payload]

@[simp] theorem payloadOf_answer {cmd opt : UInt8} {takes : IsNegotiation cmd}
    (pieces : List Piece) :
    payloadOf (.answer cmd opt takes :: pieces) = payloadOf pieces := by
  simp [payloadOf, Piece.payload]

theorem readBack_cons (chunk : List UInt8) (chunks : List (List UInt8)) :
    readBack (chunk :: chunks) =
      (telnetEatIac chunk).out ++ readBack chunks :=
  List.flatMap_cons

/-! ## Pieces that arrive whole -/

/-- A piece in front of others is taken off for what it is. -/
theorem out_encode_append (piece : Piece) (rest : List UInt8) :
    (telnetEatIac (piece.encode ++ rest)).out =
      piece.payload ++ (telnetEatIac rest).out := by
  cases piece with
  | byte b =>
      by_cases plain : b = IAC
      · subst plain
        exact out_escaped rest
      · simp only [Piece.encode, Telnet.escape, List.flatMap_cons,
          List.flatMap_nil, if_neg plain]
        exact out_plain plain rest
  | answer cmd opt takes => exact out_negotiation takes opt rest

theorem out_stream (pieces : List Piece) :
    (telnetEatIac (stream pieces)).out = payloadOf pieces := by
  induction pieces with
  | nil => rfl
  | cons piece pieces ih =>
      rw [stream_cons, out_encode_append, ih]
      rfl

/-- A piece of one byte cannot be cut. -/
theorem uncut_of_bare {pieces : List Piece} {chunks : List (List UInt8)}
    (bare : ∀ piece ∈ pieces, piece.Bare) : Uncut pieces chunks := by
  rintro arrived - ⟨done, piece, rest, rfl, hready, hend⟩
  have hbytes : Piece.coding.bytes piece = piece.encode := rfl
  have hpiece : Piece.coding.ready piece = 1 := rfl
  rw [hbytes, Piece.Bare.encode_length (bare piece (by simp))] at hend
  omega

/-- Uncut pieces are read back. -/
theorem readBack_of_uncut {chunks : List (List UInt8)} {pieces : List Piece}
    (whole : chunks.flatten = stream pieces) (uncut : Uncut pieces chunks) :
    readBack chunks = payloadOf pieces := by
  induction chunks generalizing pieces with
  | nil =>
      cases pieces with
      | nil => rfl
      | cons piece pieces =>
          have hpos := piece.encode_length_pos
          have hlength := congrArg List.length whole
          rw [stream_cons, List.length_append] at hlength
          simp only [List.flatten_nil, List.length_nil] at hlength
          omega
  | cons chunk chunks ih =>
      rw [List.flatten_cons] at whole
      have hcut := uncut [chunk] (by simp)
      rw [List.flatten_singleton, List.length_nil, Nat.zero_add] at hcut
      obtain ⟨done, rest, tail, rfl, hchunk, hincomplete, -⟩ :=
        Reassembly.Coding.exists_split ⟨chunks.flatten, whole⟩ hcut
      have hnone : tail = [] := by
        cases rest with
        | nil => exact hincomplete
        | cons piece rest =>
            exact List.length_eq_zero_iff.mp (Nat.lt_one_iff.mp hincomplete)
      rw [hnone, List.append_nil] at hchunk
      rw [hchunk, stream, Reassembly.Coding.stream_append,
        List.append_cancel_left_eq] at whole
      have hlater : Uncut rest chunks :=
        Reassembly.Coding.Uncut.tail uncut (by simpa using hchunk)
      rw [readBack_cons, hchunk, out_stream, ih whole hlater]
      simp [payloadOf]

/-! ## Pieces that are cut -/

/-- An `IAC` is read back only for two that stand side by side. -/
theorem count_out_le (data : List UInt8) :
    (telnetEatIac data).out.count IAC ≤ pairs IAC data := by
  induction data using eat_induction with
  | stuck data stuck =>
      rw [out_of_none stuck]
      exact Nat.zero_le _
  | taken data eaten rest taken ih =>
      rw [out_of_some taken, List.count_append]
      rcases eatNext_cases taken with
        ⟨b, plain, rfl, hout⟩ | ⟨rfl, hout⟩ | ⟨-, suffix, hout⟩
      · rw [hout, pairs_other plain, List.count_singleton,
          if_neg (by simpa using plain), Nat.zero_add]
        exact ih
      · rw [hout, pairs_pair, List.count_singleton_self, Nat.add_comm]
        exact Nat.succ_le_succ ih
      · rw [hout, List.count_nil, Nat.zero_add]
        exact Nat.le_trans ih (pairs_le_of_suffix suffix)

theorem count_readBack_le (chunks : List (List UInt8)) :
    (readBack chunks).count IAC ≤ pairs IAC chunks.flatten := by
  induction chunks with
  | nil => exact Nat.zero_le _
  | cons chunk chunks ih =>
      have hchunk := count_out_le chunk
      have hcut := @pairs_append_le _ _ IAC chunk chunks.flatten
      rw [readBack_cons, List.count_append, List.flatten_cons]
      omega

/-- On the wire there are as many pairs of `IAC` as `IAC`s were written. -/
theorem pairs_stream {pieces : List Piece}
    (plain : ∀ piece ∈ pieces, piece.PlainOption) :
    pairs IAC (stream pieces) = (payloadOf pieces).count IAC := by
  induction pieces with
  | nil => rfl
  | cons piece pieces ih =>
      have hlater := ih fun other member =>
        plain other (List.mem_cons_of_mem _ member)
      cases piece with
      | byte b =>
          by_cases same : b = IAC
          · subst same
            rw [stream_IAC, pairs_pair, payloadOf_byte, List.count_cons_self,
              hlater]
          · rw [stream_byte same, pairs_other same, payloadOf_byte,
              List.count_cons_of_ne same, hlater]
      | answer cmd opt takes =>
          have hopt : opt ≠ IAC := plain _ List.mem_cons_self
          have hcmd : pairs IAC (IAC :: cmd :: opt :: stream pieces) =
              pairs IAC (cmd :: opt :: stream pieces) := by
            rw [pairs, if_neg fun both => takes.ne_IAC both.2]
          rw [stream_answer, hcmd, pairs_other takes.ne_IAC, pairs_other hopt,
            payloadOf_answer, hlater]

/-- What is read back misses an `IAC`, or is longer than what was written. -/
def Differs (out payload : List UInt8) : Prop :=
  out.count IAC < payload.count IAC ∨ payload.length < out.length

namespace Differs

variable {out payload : List UInt8}

theorem ne (differs : Differs out payload) : out ≠ payload := by
  rintro rfl
  rcases differs with less | longer
  · exact absurd less (Nat.lt_irrefl _)
  · exact absurd longer (Nat.lt_irrefl _)

theorem cons (differs : Differs out payload) (b : UInt8) :
    Differs (b :: out) (b :: payload) := by
  rcases differs with less | longer
  · left
    rw [List.count_cons, List.count_cons]
    exact Nat.add_lt_add_right less _
  · exact Or.inr (Nat.succ_lt_succ longer)

/-- A byte that comes on top does not make up for a difference. -/
theorem leak {b : UInt8} (plain : b ≠ IAC)
    (read : Differs out payload ∨ out = payload) :
    Differs (b :: out) payload := by
  rcases read with (less | longer) | rfl
  · left
    rwa [List.count_cons_of_ne plain]
  · exact Or.inr (Nat.lt_succ_of_lt longer)
  · exact Or.inr (Nat.lt_succ_self _)

end Differs

/-- The first byte stands at the front of some result; empty ones are nothing. -/
theorem first_chunk {chunks : List (List UInt8)} {b : UInt8} {wire : List UInt8}
    (whole : chunks.flatten = b :: wire) :
    ∃ chunk later, (chunk :: later).flatten = wire ∧
      readBack chunks = readBack ((b :: chunk) :: later) ∧
      ∀ pieces, Uncut pieces ((b :: chunk) :: later) →
        Uncut pieces chunks := by
  induction chunks with
  | nil => simp at whole
  | cons chunk chunks ih =>
      cases chunk with
      | nil =>
          obtain ⟨first, later, hwire, hread, huncut⟩ := ih (by simpa using whole)
          refine ⟨first, later, hwire, ?_, fun pieces uncut => ?_⟩
          · rw [readBack_cons, out_nil, List.nil_append, hread]
          · have hlater := huncut pieces uncut
            intro arrived front
            cases arrived with
            | nil => exact hlater [] List.nil_prefix
            | cons other arrived =>
                rw [List.cons_prefix_cons] at front
                obtain ⟨rfl, hfront⟩ := front
                exact hlater arrived hfront
      | cons first chunk =>
          simp only [List.flatten_cons, List.cons_append, List.cons.injEq]
            at whole
          obtain ⟨rfl, rfl⟩ := whole
          exact ⟨chunk, chunks, by simp, rfl, fun _ uncut => uncut⟩

/-- A piece at the front of a result is not cut. -/
theorem uncut_encode {piece : Piece} {pieces : List Piece} {chunk : List UInt8}
    {later : List (List UInt8)} (uncut : Uncut pieces (chunk :: later)) :
    Uncut (piece :: pieces) ((piece.encode ++ chunk) :: later) := by
  have hpos := piece.encode_length_pos
  have hbytes : Piece.coding.bytes piece = piece.encode := rfl
  have hready : Piece.coding.ready piece = 1 := rfl
  intro arrived front
  rw [List.length_nil, Nat.zero_add, Reassembly.Coding.cutInside_cons_iff,
    hbytes, hready]
  cases arrived with
  | nil =>
      simp only [List.flatten_nil, List.length_nil]
      omega
  | cons first arrived =>
      rw [List.cons_prefix_cons] at front
      obtain ⟨rfl, hfront⟩ := front
      simp only [List.flatten_cons, List.append_assoc, List.length_append]
      rintro (⟨-, short⟩ | ⟨-, inside⟩)
      · omega
      · refine uncut (chunk :: arrived)
          ((List.prefix_cons_inj chunk).mpr hfront) ?_
        rw [List.length_nil, Nat.zero_add, List.flatten_cons,
          List.length_append]
        convert inside using 1
        omega

theorem first_plain {chunks : List (List UInt8)} {b : UInt8}
    {wire : List UInt8} (plain : b ≠ IAC) (whole : chunks.flatten = b :: wire) :
    ∃ later, later.flatten = wire ∧ readBack chunks = b :: readBack later ∧
      ∀ pieces, Uncut pieces later → Uncut (.byte b :: pieces) chunks := by
  obtain ⟨chunk, later, hwire, hread, huncut⟩ := first_chunk whole
  refine ⟨chunk :: later, hwire, ?_, fun pieces uncut => ?_⟩
  · rw [hread, readBack_cons, out_plain plain, List.cons_append, ← readBack_cons]
  · have hbyte := @uncut_encode (.byte b) pieces chunk later uncut
    simp only [Piece.encode, Telnet.escape, List.flatMap_cons,
      List.flatMap_nil, if_neg plain, List.append_nil, List.cons_append,
      List.nil_append] at hbyte
    exact huncut _ hbyte

/-- An `IAC` at the end of a result is lost; else the next byte is with it. -/
theorem first_IAC {chunks : List (List UInt8)} {b : UInt8} {wire : List UInt8}
    (whole : chunks.flatten = IAC :: b :: wire) :
    (∃ later, later.flatten = b :: wire ∧ readBack chunks = readBack later) ∨
      ∃ chunk later, (chunk :: later).flatten = wire ∧
        readBack chunks = readBack ((IAC :: b :: chunk) :: later) ∧
        ∀ pieces, Uncut pieces ((IAC :: b :: chunk) :: later) →
          Uncut pieces chunks := by
  obtain ⟨chunk, later, hwire, hread, huncut⟩ := first_chunk whole
  cases chunk with
  | nil =>
      exact Or.inl ⟨later, by simpa using hwire, by
        rw [hread, readBack_cons, out_lone, List.nil_append]⟩
  | cons first chunk =>
      simp only [List.flatten_cons, List.cons_append, List.cons.injEq] at hwire
      obtain ⟨rfl, hwire⟩ := hwire
      exact Or.inr ⟨chunk, later, by simpa using hwire, hread, huncut⟩

/-- All is read back and nothing was cut, or it is not what was written. -/
def Reads (pieces : List Piece) (chunks : List (List UInt8)) : Prop :=
  Differs (readBack chunks) (payloadOf pieces) ∨
    (readBack chunks = payloadOf pieces ∧ Uncut pieces chunks)

theorem Reads.differs_or_eq {pieces : List Piece} {chunks : List (List UInt8)}
    (reads : Reads pieces chunks) :
    Differs (readBack chunks) (payloadOf pieces) ∨
      readBack chunks = payloadOf pieces :=
  reads.imp id And.left

/-- What follows an `IAC` that was lost. -/
def Astray (pieces : List Piece) : Prop :=
  ∀ chunks : List (List UInt8), chunks.flatten = IAC :: stream pieces →
    Differs (readBack chunks) (IAC :: payloadOf pieces)

section Step

variable {pieces : List Piece} {chunks : List (List UInt8)}

/-- The bytes of an option that stand alone are read as if they were written. -/
theorem differs_of_option {b opt : UInt8} (plain : b ≠ IAC) (option : opt ≠ IAC)
    (read : ∀ chunks, chunks.flatten = stream pieces → Reads pieces chunks)
    (whole : chunks.flatten = b :: opt :: stream pieces) :
    Differs (readBack chunks) (payloadOf pieces) := by
  obtain ⟨behind, hbehind, hread, -⟩ := first_plain plain whole
  obtain ⟨later, hlater, hopt, -⟩ := first_plain option hbehind
  rw [hread, hopt]
  exact Differs.leak plain
    (Or.inl (Differs.leak option (read later hlater).differs_or_eq))

theorem reads_byte {b : UInt8} (plain : b ≠ IAC)
    (read : ∀ chunks, chunks.flatten = stream pieces → Reads pieces chunks)
    (whole : chunks.flatten = stream (.byte b :: pieces)) :
    Reads (.byte b :: pieces) chunks := by
  rw [stream_byte plain] at whole
  obtain ⟨later, hlater, hread, huncut⟩ := first_plain plain whole
  rw [Reads, hread, payloadOf_byte]
  rcases read later hlater with differs | ⟨same, uncut⟩
  · exact Or.inl (differs.cons b)
  · exact Or.inr ⟨by rw [same], huncut pieces uncut⟩

theorem reads_IAC
    (read : ∀ chunks, chunks.flatten = stream pieces → Reads pieces chunks)
    (astray : Astray pieces)
    (whole : chunks.flatten = stream (.byte IAC :: pieces)) :
    Reads (.byte IAC :: pieces) chunks := by
  rw [stream_IAC] at whole
  rw [Reads, payloadOf_byte]
  rcases first_IAC whole with
    ⟨later, hlater, hread⟩ | ⟨chunk, later, hwire, hread, huncut⟩
  · rw [hread]
    exact Or.inl (astray later hlater)
  · rw [hread, readBack_cons, out_escaped, List.cons_append, ← readBack_cons]
    rcases read (chunk :: later) hwire with differs | ⟨same, uncut⟩
    · exact Or.inl (differs.cons IAC)
    · exact Or.inr ⟨by rw [same],
        huncut _ (@uncut_encode (.byte IAC) pieces chunk later uncut)⟩

theorem reads_answer {cmd opt : UInt8} {takes : IsNegotiation cmd}
    (option : opt ≠ IAC)
    (read : ∀ chunks, chunks.flatten = stream pieces → Reads pieces chunks)
    (whole : chunks.flatten = stream (.answer cmd opt takes :: pieces)) :
    Reads (.answer cmd opt takes :: pieces) chunks := by
  rw [stream_answer] at whole
  rw [Reads, payloadOf_answer]
  rcases first_IAC whole with
    ⟨later, hlater, hread⟩ | ⟨chunk, later, hwire, hread, huncut⟩
  · rw [hread]
    exact Or.inl (differs_of_option takes.ne_IAC option read hlater)
  · cases chunk with
    | nil =>
        have hshort : readBack chunks = readBack later := by
          rw [hread, readBack_cons, out_short takes, List.nil_append]
        obtain ⟨behind, hbehind, hopt, -⟩ :=
          first_plain option (by simpa using hwire)
        rw [hshort, hopt]
        exact Or.inl (Differs.leak option (read behind hbehind).differs_or_eq)
    | cons first chunk =>
        simp only [List.flatten_cons, List.cons_append, List.cons.injEq] at hwire
        obtain ⟨rfl, hwire⟩ := hwire
        rw [hread, readBack_cons, out_negotiation takes, ← readBack_cons]
        rcases read (chunk :: later) (by simpa using hwire) with
          differs | ⟨same, uncut⟩
        · exact Or.inl differs
        · exact Or.inr ⟨same, huncut _
            (@uncut_encode (.answer cmd first takes) pieces chunk later uncut)⟩

/-- With fewer pairs on the wire than `IAC`s to be read, some are missing. -/
theorem differs_of_pairs {wire payload : List UInt8}
    (whole : chunks.flatten = wire)
    (less : pairs IAC wire < payload.count IAC) :
    Differs (readBack chunks) payload :=
  Or.inl (Nat.lt_of_le_of_lt (whole ▸ count_readBack_le chunks) less)

/-- The `IAC` stands alone in its result. -/
theorem differs_of_lone (plain : ∀ piece ∈ pieces, piece.PlainOption)
    (whole : chunks.flatten = stream pieces) :
    Differs (readBack chunks) (IAC :: payloadOf pieces) := by
  apply differs_of_pairs whole
  rw [pairs_stream plain, List.count_cons_self]
  exact Nat.lt_succ_self _

theorem astray_cons {piece : Piece}
    (plain : ∀ other ∈ piece :: pieces, other.PlainOption)
    (read : ∀ chunks, chunks.flatten = stream pieces → Reads pieces chunks)
    (astray : Astray pieces) : Astray (piece :: pieces) := by
  intro chunks whole
  cases piece with
  | byte b =>
      by_cases same : b = IAC
      · subst same
        rw [stream_IAC] at whole
        rcases first_IAC whole with
          ⟨later, hlater, hread⟩ | ⟨chunk, later, hwire, hread, -⟩
        · rw [hread]
          exact differs_of_lone plain (by rwa [stream_IAC])
        · rw [hread, readBack_cons, out_escaped, List.cons_append,
            ← readBack_cons, payloadOf_byte]
          exact (astray (chunk :: later) hwire).cons IAC
      · apply differs_of_pairs whole
        rw [stream_byte same, pairs, if_neg fun both => same both.2,
          ← stream_byte same, pairs_stream plain, List.count_cons_self]
        exact Nat.lt_succ_self _
  | answer cmd opt takes =>
      have option : opt ≠ IAC := plain _ List.mem_cons_self
      rw [stream_answer] at whole
      rcases first_IAC whole with
        ⟨later, hlater, hread⟩ | ⟨chunk, later, hwire, hread, -⟩
      · rw [hread]
        exact differs_of_lone plain (by rwa [stream_answer])
      · rw [hread, readBack_cons, out_escaped, List.cons_append,
          ← readBack_cons, payloadOf_answer]
        exact (differs_of_option takes.ne_IAC option read hwire).cons IAC

end Step

/-- What a receiver finds in the pieces, however they come. -/
theorem reads_and_astray (pieces : List Piece)
    (plain : ∀ piece ∈ pieces, piece.PlainOption) :
    (∀ chunks, chunks.flatten = stream pieces → Reads pieces chunks) ∧
      Astray pieces := by
  induction pieces with
  | nil =>
      constructor
      · intro chunks whole
        have uncut : Uncut [] chunks := uncut_of_bare (by simp)
        exact Or.inr ⟨readBack_of_uncut whole uncut, uncut⟩
      · intro chunks whole
        exact differs_of_pairs whole (by decide)
  | cons piece pieces ih =>
      obtain ⟨read, astray⟩ := ih fun other member =>
        plain other (List.mem_cons_of_mem _ member)
      refine ⟨fun chunks whole => ?_, astray_cons plain read astray⟩
      cases piece with
      | byte b =>
          by_cases same : b = IAC
          · subst same
            exact reads_IAC read astray whole
          · exact reads_byte same read whole
      | answer cmd opt takes =>
          exact reads_answer (plain _ List.mem_cons_self) read whole

/-! ## One byte to a result -/

/-- Cut behind each byte, the stream is read back without its `IAC`s. -/
theorem readBack_single (data : List UInt8) :
    readBack (data.map fun b => [b]) = data.filter (· ≠ IAC) := by
  induction data with
  | nil => rfl
  | cons b data ih =>
      rw [List.map_cons, readBack_cons, ih]
      by_cases same : b = IAC
      · subst same
        rfl
      · rw [out_plain same, out_nil, List.filter_cons_of_pos (by simpa using same)]
        rfl

theorem filter_stream_byte {b : UInt8} (plain : b ≠ IAC) (pieces : List Piece) :
    (stream (.byte b :: pieces)).filter (· ≠ IAC) =
      b :: (stream pieces).filter (· ≠ IAC) := by
  rw [stream_byte plain, List.filter_cons_of_pos (by simpa using plain)]

/-- An answer adds at least its command to what is no `IAC`. -/
theorem filter_stream_answer {cmd opt : UInt8} (takes : IsNegotiation cmd)
    (pieces : List Piece) :
    ((stream pieces).filter (· ≠ IAC)).length <
      ((stream (.answer cmd opt takes :: pieces)).filter (· ≠ IAC)).length := by
  have hoption : (stream pieces).filter (· ≠ IAC) <:+
      (opt :: stream pieces).filter (· ≠ IAC) :=
    (List.suffix_cons opt _).filter _
  rw [stream_answer, List.filter_cons_of_neg (by simp),
    List.filter_cons_of_pos (by simpa using takes.ne_IAC)]
  exact Nat.lt_succ_of_le hoption.length_le

theorem payload_length_le {pieces : List Piece} (clean : IAC ∉ payloadOf pieces) :
    (payloadOf pieces).length ≤ ((stream pieces).filter (· ≠ IAC)).length := by
  induction pieces with
  | nil => exact Nat.le_refl _
  | cons piece pieces ih =>
      cases piece with
      | byte b =>
          rw [payloadOf_byte, List.mem_cons, not_or] at clean
          rw [payloadOf_byte, filter_stream_byte (Ne.symm clean.1)]
          exact Nat.succ_le_succ (ih clean.2)
      | answer cmd opt takes =>
          rw [payloadOf_answer] at clean ⊢
          exact (ih clean).trans (filter_stream_answer takes pieces).le

/-- Whatever is not a bare byte does not stand being cut behind each byte. -/
theorem bare_of_single {pieces : List Piece}
    (same : (stream pieces).filter (· ≠ IAC) = payloadOf pieces) :
    ∀ piece ∈ pieces, piece.Bare := by
  induction pieces with
  | nil => simp
  | cons piece pieces ih =>
      have clean : IAC ∉ payloadOf (piece :: pieces) := by
        rw [← same]
        simp
      cases piece with
      | byte b =>
          rw [payloadOf_byte, List.mem_cons, not_or] at clean
          have plain : b ≠ IAC := Ne.symm clean.1
          rw [payloadOf_byte, filter_stream_byte plain, List.cons.injEq] at same
          exact List.forall_mem_cons.mpr ⟨plain, ih same.2⟩
      | answer cmd opt takes =>
          -- The stream is too long for its payload already.
          rw [payloadOf_answer] at clean same
          have hlonger := @filter_stream_answer cmd opt takes pieces
          rw [same] at hlonger
          exact absurd (payload_length_le clean) (Nat.not_le_of_lt hlonger)

/-! ## What the agent sends -/

theorem stream_pieces (sent : List Sent) :
    stream (sent.flatMap Sent.pieces) = sent.flatMap Sent.wire := by
  induction sent with
  | nil => rfl
  | cons first sent ih =>
      rw [List.flatMap_cons, List.flatMap_cons, stream,
        Reassembly.Coding.stream_append, ← stream, ← stream, ih]
      congr 1
      cases first with
      | written data =>
          simp [stream, Reassembly.Coding.stream, Sent.pieces, Sent.wire,
            Piece.coding, Piece.encode, Telnet.escape, List.flatMap_map]
      | answer cmd opt takes => exact stream_answer []

theorem payloadOf_pieces (sent : List Sent) :
    payloadOf (sent.flatMap Sent.pieces) = sent.flatMap Sent.payload := by
  rw [payloadOf, List.flatMap_assoc]
  congr 1
  funext first
  cases first with
  | written data =>
      simp [Sent.pieces, Sent.payload, List.flatMap_map, Piece.payload]
  | answer cmd opt takes => rfl

/-- The bytes of a `Telnet.write`. -/
theorem write_sent (chan : Telnet) (data : List UInt8) :
    (chan.write data).sock.sent =
      chan.sock.sent ++ (Sent.written data).wire :=
  rfl

/-- A reply of the agent is nothing, or one answer. -/
theorem negotiate_wire (cmd opt : UInt8) :
    negotiate cmd opt = [] ∨
      ∃ reply takes, negotiate cmd opt = (Sent.answer reply opt takes).wire := by
  unfold negotiate
  split
  · split
    · exact Or.inr ⟨DO, by decide, rfl⟩
    · split
      · exact Or.inr ⟨WILL, by decide, rfl⟩
      · exact Or.inl rfl
  · split
    · exact Or.inr ⟨DONT, by decide, rfl⟩
    · split
      · exact Or.inr ⟨WONT, by decide, rfl⟩
      · exact Or.inl rfl

/-- The results of `recv` that bring the bytes of what was sent. -/
def Delivers (chunks : List Chunk) (sent : List Sent) : Prop :=
  wire chunks = sent.flatMap Sent.wire

/-- All that was written is read back, and no more. -/
def ReadsBack (chunks : List Chunk) (sent : List Sent) : Prop :=
  readBack (chunks.map Subtype.val) = sent.flatMap Sent.payload

/-- No result of `recv` ends inside a doubled `IAC` or inside an answer. -/
def Whole (chunks : List Chunk) (sent : List Sent) : Prop :=
  Uncut (sent.flatMap Sent.pieces) (chunks.map Subtype.val)

/-- No option of an answer is the number of `IAC`. -/
def PlainOptions (sent : List Sent) : Prop :=
  ∀ cmd opt takes, Sent.answer cmd opt takes ∈ sent → opt ≠ IAC

/-- There is nothing to cut: only byte strings without an `IAC` were written. -/
def OnlyPlain (sent : List Sent) : Prop :=
  ∀ one ∈ sent, ∃ data, one = .written data ∧ IAC ∉ data

theorem PlainOptions.pieces {sent : List Sent} (plain : PlainOptions sent) :
    ∀ piece ∈ sent.flatMap Sent.pieces, piece.PlainOption := by
  intro piece member
  rw [List.mem_flatMap] at member
  obtain ⟨one, hone, hpiece⟩ := member
  cases one with
  | written data =>
      rw [Sent.pieces, List.mem_map] at hpiece
      obtain ⟨b, -, rfl⟩ := hpiece
      exact trivial
  | answer cmd opt takes =>
      rw [Sent.pieces, List.mem_singleton] at hpiece
      subst hpiece
      exact plain cmd opt takes hone

theorem onlyPlain_iff {sent : List Sent} :
    OnlyPlain sent ↔ ∀ piece ∈ sent.flatMap Sent.pieces, piece.Bare := by
  simp only [OnlyPlain, List.forall_mem_flatMap]
  refine forall₂_congr fun one _ => ?_
  cases one with
  | written data =>
      constructor
      · rintro ⟨written, same, clean⟩ piece member
        cases same
        rw [Sent.pieces, List.mem_map] at member
        obtain ⟨b, hb, rfl⟩ := member
        exact fun same => clean (same ▸ hb)
      · intro bare
        refine ⟨data, rfl, fun member => ?_⟩
        exact bare (.byte IAC) (List.mem_map_of_mem member) rfl
  | answer cmd opt takes =>
      constructor
      · rintro ⟨data, same, -⟩
        cases same
      · intro bare
        exact (bare _ (List.mem_singleton_self _)).elim

theorem readsBack_of_whole {chunks : List Chunk} {sent : List Sent}
    (delivers : Delivers chunks sent) (whole : Whole chunks sent) :
    ReadsBack chunks sent := by
  rw [ReadsBack, ← payloadOf_pieces]
  exact readBack_of_uncut (delivers.trans (stream_pieces sent).symm) whole

theorem whole_of_readsBack {chunks : List Chunk} {sent : List Sent}
    (delivers : Delivers chunks sent) (plain : PlainOptions sent)
    (reads : ReadsBack chunks sent) : Whole chunks sent := by
  rw [ReadsBack, ← payloadOf_pieces] at reads
  have hread := (reads_and_astray _ plain.pieces).1 (chunks.map Subtype.val)
    (delivers.trans (stream_pieces sent).symm)
  rcases hread with differs | ⟨-, uncut⟩
  · exact absurd reads differs.ne
  · exact uncut

/-- The results of `recv` that bring one byte each. -/
def single (data : List UInt8) : List Chunk :=
  data.map fun b => ⟨[b], List.cons_ne_nil b []⟩

theorem single_val (data : List UInt8) :
    (single data).map Subtype.val = data.map fun b => [b] := by
  simp [single]

theorem wire_single (data : List UInt8) : wire (single data) = data := by
  rw [wire, single_val]
  induction data with
  | nil => rfl
  | cons b data ih => rw [List.map_cons, List.flatten_cons, ih, List.singleton_append]

/--
What the agent wrote is read back when nothing that it sent is cut, and, with
no answer for option 255 among it, only then.  However it is cut it is read
back just if there is nothing in it that could be cut.
-/
theorem written_read_back (sent : List Sent) :
    (∀ chunks, Delivers chunks sent → Whole chunks sent →
      ReadsBack chunks sent) ∧
    (PlainOptions sent → ∀ chunks, Delivers chunks sent →
      (ReadsBack chunks sent ↔ Whole chunks sent)) ∧
    ((∀ chunks, Delivers chunks sent → ReadsBack chunks sent) ↔
      OnlyPlain sent) := by
  refine ⟨fun chunks delivers whole => readsBack_of_whole delivers whole,
    fun plain chunks delivers => ⟨whole_of_readsBack delivers plain,
      readsBack_of_whole delivers⟩, fun always => ?_, fun plain chunks delivers => ?_⟩
  · have hsingle := always (single (sent.flatMap Sent.wire)) (wire_single _)
    rw [ReadsBack, single_val, readBack_single, ← stream_pieces,
      ← payloadOf_pieces] at hsingle
    exact onlyPlain_iff.mpr (bare_of_single hsingle)
  · exact readsBack_of_whole delivers (uncut_of_bare (onlyPlain_iff.mp plain))

-- Two errors can make up for each other when the option is the number of `IAC`:
-- here both the answer and the escape behind it are cut.
example : readBack [[IAC, DONT], [IAC, IAC, IAC]] = [IAC] :=
  rfl

/-- A result of `recv` that ends between the two bytes of an escape. -/
theorem written_read_back_cut :
    Delivers (single [IAC, IAC]) [.written [IAC]] ∧
      ¬ ReadsBack (single [IAC, IAC]) [.written [IAC]] :=
  ⟨rfl, fun reads => List.cons_ne_nil IAC [] (Eq.symm reads)⟩

end RiscosBuilder.Build
