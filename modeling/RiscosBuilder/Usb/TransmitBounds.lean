import RiscosBuilder.Usb.Transmit

/-!
# The bounds of transmission

Which bytes of `out_buf` the loop of `smsc_bulk_out` reads, and when it keeps
to those that have been received.
-/

namespace RiscosBuilder.Usb

open RiscosBuilder.Library RiscosBuilder.Library.ByteImage

/-- The places of `out_buf` that a turn reads, each with its number of bytes. -/
def turnReads (s : SMSCState) (t : Transmission) : List (Nat × Nat) :=
  if t.dropped ∨ ¬ 8 ≤ s.outLen - t.pos then []
  else
    let cmdA := s.outBuf.ldl t.pos.toNat
    let cmdB := s.outBuf.ldl (t.pos + 4).toNat
    let off := dataOffset cmdA
    let len := frameLength cmdB
    (t.pos.toNat, 4) :: ((t.pos + 4).toNat, 4) ::
      if len < SMSC_MIN_FRAME ∨ SMSC_MAX_FRAME + 4 < len then []
      else if s.outLen - t.pos < 8 + off + len then []
      else if csum cmdB < len ∧ txEnabled s then
        [((t.pos + 8 + off + csum cmdB).toNat, (len - csum cmdB).toNat)]
      else []

/-- A turn is what the bytes that it reads make it. -/
theorem transmitTurn_congr {s : SMSCState} {t : Transmission} {memory : Memory}
    (same : ∀ read ∈ turnReads s t,
      memory.bytes read.1 read.2 = s.outBuf.bytes read.1 read.2) :
    transmitTurn { s with outBuf := memory } t = transmitTurn s t := by
  unfold transmitTurn
  unfold turnReads at same
  by_cases test : t.dropped = true ∨ ¬ 8 ≤ s.outLen - t.pos
  · rw [if_pos test, if_pos test]
  · rw [if_neg test, if_neg test]
    rw [if_neg test] at same
    have hcmdA : memory.ldl t.pos.toNat = s.outBuf.ldl t.pos.toNat := by
      rw [Memory.ldl, Memory.ldl, same (t.pos.toNat, 4) List.mem_cons_self]
    have hcmdB : memory.ldl (t.pos + 4).toNat =
        s.outBuf.ldl (t.pos + 4).toNat := by
      rw [Memory.ldl, Memory.ldl, same ((t.pos + 4).toNat, 4)
        (List.mem_cons_of_mem _ List.mem_cons_self)]
    simp only [hcmdA, hcmdB]
    generalize s.outBuf.ldl t.pos.toNat = cmdA at same ⊢
    generalize s.outBuf.ldl (t.pos + 4).toNat = cmdB at same ⊢
    by_cases sane : frameLength cmdB < SMSC_MIN_FRAME ∨
        SMSC_MAX_FRAME + 4 < frameLength cmdB
    · rw [if_pos sane, if_pos sane]
    · rw [if_neg sane, if_neg sane]
      by_cases short : s.outLen - t.pos <
          8 + dataOffset cmdA + frameLength cmdB
      · rw [if_pos short, if_pos short]
      · rw [if_neg short, if_neg short]
        have henabled : txEnabled { s with outBuf := memory } = txEnabled s :=
          rfl
        rw [henabled]
        by_cases send : csum cmdB < frameLength cmdB ∧ txEnabled s = true
        · have hframe := same ((t.pos + 8 + dataOffset cmdA + csum cmdB).toNat,
            (frameLength cmdB - csum cmdB).toNat) (by
              simp only [if_neg sane, if_neg short, if_pos send]
              simp)
          simp only [if_pos send, hframe]
        · simp only [if_neg send]

/-! ## The bytes that have been received -/

/-- The bytes in front of the loop. -/
def received (s : SMSCState) (t : Transmission) : List UInt8 :=
  s.outBuf.bytes t.pos.toNat (s.outLen.toNat - t.pos.toNat)

/-- The little-endian word at an index. -/
def word (data : List UInt8) (i : Nat) : UInt32 :=
  UInt32.ofNat (leWord (slice data i (i + 4)))

/-- The length in words' bytes of the block that stands whole at the front. -/
def wholeBlock (data : List UInt8) : Option Nat :=
  let len := frameLength (word data 4)
  let size := 8 + (dataOffset (word data 0)).toNat + len.toNat
  if data.length < 8 ∨ len < SMSC_MIN_FRAME ∨ SMSC_MAX_FRAME + 4 < len ∨
    data.length < size then none
  else some ((size + 3) / 4 * 4)

/--
The bytes fall into blocks that are followed by all of their padding, and a
rest that holds no whole block at its front.
-/
inductive Padded : List UInt8 → Prop where
  | rest {data : List UInt8} (incomplete : wholeBlock data = none) : Padded data
  | block {data : List UInt8} {size : Nat} (whole : wholeBlock data = some size)
      (arrived : size ≤ data.length) (later : Padded (data.drop size)) :
      Padded data

section Turn

variable {s : SMSCState} {t : Transmission}

theorem received_length (s : SMSCState) (t : Transmission) :
    (received s t).length = s.outLen.toNat - t.pos.toNat :=
  Memory.bytes_length _ _ _

theorem word_received {i : Nat} (inside : i + 4 ≤ (received s t).length) :
    word (received s t) i = s.outBuf.ldl (t.pos.toNat + i) := by
  rw [received_length] at inside
  rw [word, received, Memory.slice_bytes _ inside, Memory.ldl]

/-- The words are read where they stand, and the differences do not wrap. -/
theorem words_received (inside : t.pos.toNat ≤ s.outLen.toNat)
    (fits : s.outLen.toNat ≤ SMSC_BUF_SIZE)
    (long : 8 ≤ (received s t).length) :
    s.outBuf.ldl t.pos.toNat = word (received s t) 0 ∧
      s.outBuf.ldl (t.pos + 4).toNat = word (received s t) 4 ∧
      (t.pos + 4).toNat = t.pos.toNat + 4 := by
  simp only [SMSC_BUF_SIZE] at fits
  have hfour : (4 : UInt32).toNat = 4 := rfl
  have hpos : (t.pos + 4).toNat = t.pos.toNat + 4 :=
    Word.toNat_add_of_lt (by omega)
  refine ⟨?_, ?_, hpos⟩
  · rw [word_received (by omega), Nat.add_zero]
  · rw [word_received (by omega), hpos]

theorem left_toNat (inside : t.pos.toNat ≤ s.outLen.toNat) :
    (s.outLen - t.pos).toNat = (received s t).length := by
  rw [Word.toNat_sub_of_le inside, received_length]

theorem test_iff (inside : t.pos.toNat ≤ s.outLen.toNat) :
    (t.dropped = true ∨ ¬ 8 ≤ s.outLen - t.pos) ↔
      t.dropped = true ∨ (received s t).length < 8 := by
  rw [UInt32.le_iff_toNat_le, left_toNat inside, Nat.not_le]
  exact Iff.rfl

theorem short_iff (inside : t.pos.toNat ≤ s.outLen.toNat)
    (cmdA cmdB : UInt32) :
    s.outLen - t.pos < 8 + dataOffset cmdA + frameLength cmdB ↔
      (received s t).length <
        8 + (dataOffset cmdA).toNat + (frameLength cmdB).toNat := by
  rw [UInt32.lt_iff_toNat_lt, left_toNat inside, span_toNat]

/-- In front of no whole block the loop ends, or drops what there is. -/
theorem transmitTurn_rest (inside : t.pos.toNat ≤ s.outLen.toNat)
    (fits : s.outLen.toNat ≤ SMSC_BUF_SIZE)
    (incomplete : wholeBlock (received s t) = none) {next : Transmission}
    (turn : transmitTurn s t = some next) :
    t.dropped = false ∧ next = { t with dropped := true } := by
  unfold transmitTurn at turn
  by_cases test : t.dropped = true ∨ (received s t).length < 8
  · rw [if_pos ((test_iff inside).mpr test)] at turn
    exact absurd turn.symm (Option.some_ne_none next)
  · rw [if_neg (mt (test_iff inside).mp test)] at turn
    rw [not_or, Nat.not_lt, Bool.not_eq_true] at test
    obtain ⟨hcmdA, hcmdB, -⟩ := words_received inside fits test.2
    simp only [hcmdA, hcmdB, short_iff inside] at turn
    refine ⟨test.1, ?_⟩
    by_cases sane : frameLength (word (received s t) 4) < SMSC_MIN_FRAME ∨
        SMSC_MAX_FRAME + 4 < frameLength (word (received s t) 4)
    · rw [if_pos sane, Option.some.injEq] at turn
      exact turn.symm
    · rw [if_neg sane] at turn
      have hshort : (received s t).length <
          8 + (dataOffset (word (received s t) 0)).toNat +
            (frameLength (word (received s t) 4)).toNat := by
        by_contra long
        rw [not_or] at sane
        simp [wholeBlock, long, sane.1, sane.2, Nat.not_lt.mpr test.2]
          at incomplete
      rw [if_pos hshort] at turn
      exact absurd turn.symm (Option.some_ne_none next)

/-- A whole block is stepped over, padding and all. -/
theorem transmitTurn_whole (inside : t.pos.toNat ≤ s.outLen.toNat)
    (fits : s.outLen.toNat ≤ SMSC_BUF_SIZE) (running : t.dropped = false)
    {size : Nat} (whole : wholeBlock (received s t) = some size) :
    24 ≤ size ∧ ∃ next, transmitTurn s t = some next ∧
      next.pos.toNat = t.pos.toNat + size ∧ next.dropped = false := by
  unfold wholeBlock at whole
  simp only [Option.ite_none_left_eq_some, not_or, Nat.not_lt,
    Option.some.injEq] at whole
  obtain ⟨⟨long, sized, limited, arrived⟩, rfl⟩ := whole
  obtain ⟨hcmdA, hcmdB, -⟩ := words_received inside fits long
  have hoff := dataOffset_toNat_le (word (received s t) 0)
  have hlen := frameLength_toNat_le (word (received s t) 4)
  have hmin : 14 ≤ (frameLength (word (received s t) 4)).toNat := by
    rw [UInt32.lt_iff_toNat_lt] at sized
    exact Nat.not_lt.mp sized
  have haligned := aligned_toNat (word (received s t) 0)
    (word (received s t) 4)
  simp only [SMSC_BUF_SIZE] at fits
  have htest : ¬ (t.dropped = true ∨ ¬ 8 ≤ s.outLen - t.pos) := by
    rw [test_iff inside, running, not_or, Nat.not_lt]
    exact ⟨by simp, long⟩
  refine ⟨by omega, ?_⟩
  unfold transmitTurn
  rw [if_neg htest]
  simp only [hcmdA, hcmdB, short_iff inside]
  rw [if_neg (not_or.mpr ⟨sized, limited⟩), if_neg (Nat.not_lt.mpr arrived)]
  refine ⟨_, rfl, ?_, running⟩
  simp only
  rw [Word.toNat_add_of_lt (by omega), haligned]

/-- A turn that starts inside what has been received reads nothing else. -/
theorem turnReads_inside (inside : t.pos.toNat ≤ s.outLen.toNat)
    (fits : s.outLen.toNat ≤ SMSC_BUF_SIZE) {read : Nat × Nat}
    (member : read ∈ turnReads s t) : read.1 + read.2 ≤ s.outLen.toNat := by
  unfold turnReads at member
  by_cases test : t.dropped = true ∨ (received s t).length < 8
  · rw [if_pos ((test_iff inside).mpr test)] at member
    exact absurd member List.not_mem_nil
  · rw [if_neg (mt (test_iff inside).mp test)] at member
    rw [not_or, Nat.not_lt] at test
    have hlong := test.2
    obtain ⟨hcmdA, hcmdB, hpos⟩ := words_received inside fits hlong
    simp only [hcmdA, hcmdB, short_iff inside, List.mem_cons] at member
    rw [received_length] at hlong
    rcases member with rfl | rfl | member
    · simp only
      omega
    · simp only
      omega
    · generalize word (received s t) 0 = cmdA at member
      generalize word (received s t) 4 = cmdB at member
      split at member
      · exact absurd member List.not_mem_nil
      · split at member
        · exact absurd member List.not_mem_nil
        · next arrived =>
            split at member
            · next send =>
                rw [List.mem_singleton] at member
                have hless := UInt32.lt_iff_toNat_lt.mp send.1
                rw [received_length] at arrived
                have hstart := start_toNat (Nat.le_trans inside fits) cmdA cmdB
                have hsize : (frameLength cmdB - csum cmdB).toNat =
                    (frameLength cmdB).toNat - (csum cmdB).toNat :=
                  Word.toNat_sub_of_le (by omega)
                rw [member, hstart, hsize]
                simp only
                omega
            · exact absurd member List.not_mem_nil

/-- A turn that starts inside padded bytes ends inside them. -/
structure Inside (s : SMSCState) (t : Transmission) : Prop where
  inside : t.pos.toNat ≤ s.outLen.toNat
  padded : t.dropped = false → Padded (received s t)

/-- What a block leaves of the received bytes. -/
theorem received_next {next : Transmission} {size : Nat}
    (arrived : size ≤ (received s t).length)
    (moved : next.pos.toNat = t.pos.toNat + size) :
    received s next = (received s t).drop size := by
  rw [received_length] at arrived
  rw [received, received, Memory.drop_bytes _ arrived, moved, Nat.sub_add_eq]

/-- Falls with every turn. -/
def turnsLeft (s : SMSCState) (t : Transmission) : Nat :=
  2 * (s.outLen.toNat - t.pos.toNat) + if t.dropped then 0 else 1

theorem Inside.turn (holds : Inside s t) (fits : s.outLen.toNat ≤ SMSC_BUF_SIZE)
    {next : Transmission} (turn : transmitTurn s t = some next) :
    Inside s next ∧ turnsLeft s next < turnsLeft s t := by
  have hrunning : t.dropped = false := by
    by_contra dropped
    rw [Bool.not_eq_false] at dropped
    rw [transmitTurn, if_pos (Or.inl dropped)] at turn
    exact absurd turn.symm (Option.some_ne_none next)
  cases holds.padded hrunning with
  | rest incomplete =>
      obtain ⟨-, rfl⟩ := transmitTurn_rest holds.inside fits incomplete turn
      refine ⟨⟨holds.inside, fun running => ?_⟩, ?_⟩
      · exact absurd running (by simp)
      · simp [turnsLeft, hrunning]
  | @block _ size whole arrived later =>
      obtain ⟨hsize, other, hturn, hpos, hdropped⟩ :=
        transmitTurn_whole holds.inside fits hrunning whole
      rw [turn, Option.some.injEq] at hturn
      subst hturn
      rw [← received_next arrived hpos] at later
      rw [received_length] at arrived
      have hinside := holds.inside
      refine ⟨⟨by omega, fun _ => later⟩, ?_⟩
      simp only [turnsLeft, hrunning, hdropped]
      omega

end Turn

/-! ## One packet -/

/-- The bytes that stand in `out_buf` when the loop begins. -/
def arrived (s : SMSCState) (packet : List UInt8) : List UInt8 :=
  s.outBuf.bytes 0 s.outLen.toNat ++
    packet.take (SMSC_BUF_SIZE - s.outLen.toNat)

/-- The loop as it begins. -/
def transmitStart : Transmission :=
  ⟨0, [], false⟩

/--
Every test of the loop finds it inside the received bytes, which are inside the
buffer; nothing but received bytes is read, and nothing else is sent; and the
loop comes to an end.
-/
structure Contained (s : SMSCState) (packet : List UInt8) : Prop where
  bounded : (copyPacket s packet).outLen.toNat ≤ SMSC_BUF_SIZE
  ordered : ∀ count, (Loop.turns (transmitTurn (copyPacket s packet)) count
    transmitStart).pos.toNat ≤ (copyPacket s packet).outLen.toNat
  reads : ∀ count, ∀ read ∈ turnReads (copyPacket s packet)
      (Loop.turns (transmitTurn (copyPacket s packet)) count transmitStart),
    read.1 + read.2 ≤ (copyPacket s packet).outLen.toNat
  fresh : ∀ memory : Memory, (∀ i < s.outLen.toNat, memory i = s.outBuf i) →
    ∀ fuel, (bulkOut fuel { s with outBuf := memory } packet).map Prod.snd =
      (bulkOut fuel s packet).map Prod.snd
  ends : ∃ fuel next sent, bulkOut fuel s packet = some (next, sent)

section Packet

variable {s : SMSCState} {packet : List UInt8}

/-- How much of the packet fits; it is stored whatever the buffer holds. -/
theorem copyPacket_size (packet : List UInt8)
    (fits : s.outLen.toNat ≤ SMSC_BUF_SIZE) :
    ∃ size : UInt32,
      (∀ memory : Memory, copyPacket { s with outBuf := memory } packet =
        { s with
          outBuf := memory.store s.outLen.toNat (packet.take size.toNat)
          outLen := s.outLen + size }) ∧
      packet.take size.toNat =
        packet.take (SMSC_BUF_SIZE - s.outLen.toNat) ∧
      size.toNat = (packet.take size.toNat).length ∧
      (s.outLen + size).toNat = s.outLen.toNat + size.toNat ∧
      s.outLen.toNat + size.toNat ≤ SMSC_BUF_SIZE := by
  have hroom : (UInt32.ofNat SMSC_BUF_SIZE - s.outLen).toNat =
      SMSC_BUF_SIZE - s.outLen.toNat :=
    Word.toNat_sub_of_le fits
  have hlimit : SMSC_BUF_SIZE = 18432 := rfl
  unfold copyPacket
  by_cases whole :
      (UInt32.ofNat SMSC_BUF_SIZE - s.outLen).toNat > packet.length
  · have hsize : (UInt32.ofNat packet.length).toNat = packet.length :=
      UInt32.toNat_ofNat_of_lt' (by rw [UInt32.size]; omega)
    refine ⟨UInt32.ofNat packet.length, fun memory => by
      simp only [if_pos whole], ?_, ?_, ?_, ?_⟩
    · rw [hsize, List.take_length, List.take_of_length_le (by omega)]
    · rw [hsize, List.take_length]
    · exact Word.toNat_add_of_lt (by omega)
    · omega
  · refine ⟨UInt32.ofNat SMSC_BUF_SIZE - s.outLen,
      fun memory => by simp only [if_neg whole], by rw [hroom], ?_, ?_, ?_⟩
    · rw [List.length_take]
      omega
    · exact Word.toNat_add_of_lt (by omega)
    · omega

theorem copyPacket_bounded (packet : List UInt8)
    (fits : s.outLen.toNat ≤ SMSC_BUF_SIZE) :
    (copyPacket s packet).outLen.toNat ≤ SMSC_BUF_SIZE := by
  obtain ⟨size, hcopy, -, -, hlen, hbound⟩ :=
    copyPacket_size packet fits
  rw [hcopy s.outBuf]
  exact hlen ▸ hbound

/-- The loop begins in front of the bytes that have arrived. -/
theorem received_transmitStart (fits : s.outLen.toNat ≤ SMSC_BUF_SIZE) :
    received (copyPacket s packet) transmitStart = arrived s packet := by
  obtain ⟨size, hcopy, htake, hsize, hlen, -⟩ :=
    copyPacket_size packet fits
  have hzero : transmitStart.pos.toNat = 0 := rfl
  simp only [received, hcopy s.outBuf, hlen, hzero, Nat.sub_zero, arrived,
    ← htake]
  rw [Memory.bytes_append, Memory.bytes_store_apart (Or.inl (by omega)),
    Nat.zero_add]
  have hstored := s.outBuf.bytes_store_same s.outLen.toNat
    (packet.take size.toNat)
  rw [← hsize] at hstored
  rw [hstored]

/-- What stands behind the received bytes plays no part in storing a packet. -/
theorem copyPacket_congr (packet : List UInt8)
    (fits : s.outLen.toNat ≤ SMSC_BUF_SIZE)
    {memory : Memory} (same : ∀ i < s.outLen.toNat, memory i = s.outBuf i) :
    ∃ other : Memory,
      copyPacket { s with outBuf := memory } packet =
        { copyPacket s packet with outBuf := other } ∧
      ∀ i < (copyPacket s packet).outLen.toNat,
        other i = (copyPacket s packet).outBuf i := by
  obtain ⟨size, hcopy, -, hsize, hlen, -⟩ :=
    copyPacket_size packet fits
  refine ⟨memory.store s.outLen.toNat (packet.take size.toNat), ?_, ?_⟩
  · rw [hcopy memory, hcopy s.outBuf]
  · rw [hcopy s.outBuf]
    simp only [hlen]
    intro i inside
    unfold Memory.store
    by_cases written : s.outLen.toNat ≤ i ∧
        i < s.outLen.toNat + (packet.take size.toNat).length
    · rw [if_pos written, if_pos written]
    · rw [if_neg written, if_neg written]
      exact same i (by omega)

/-- Padded bytes keep the loop inside them. -/
theorem inside_of_padded (fits : s.outLen.toNat ≤ SMSC_BUF_SIZE)
    (padded : Padded (arrived s packet)) :
    Inside (copyPacket s packet) transmitStart :=
  ⟨Nat.zero_le _, fun _ => by rwa [received_transmitStart fits]⟩

theorem contained_of_padded (fits : s.outLen.toNat ≤ SMSC_BUF_SIZE)
    (padded : Padded (arrived s packet)) : Contained s packet := by
  have hbounded := copyPacket_bounded packet fits
  have hstart := inside_of_padded fits padded
  have hkeeps : ∀ t next, Inside (copyPacket s packet) t →
      transmitTurn (copyPacket s packet) t = some next →
        Inside (copyPacket s packet) next :=
    fun t next holds turn => (holds.turn hbounded turn).1
  have hinside := fun count => Loop.turns_invariant hkeeps hstart count
  refine ⟨hbounded, fun count => (hinside count).inside, ?_, ?_, ?_⟩
  · intro count read member
    exact turnReads_inside (hinside count).inside hbounded member
  · intro memory same fuel
    obtain ⟨other, hcopy, hother⟩ :=
      copyPacket_congr packet fits same
    have hrun : Loop.run
        (transmitTurn { copyPacket s packet with outBuf := other }) fuel
          transmitStart =
        Loop.run (transmitTurn (copyPacket s packet)) fuel transmitStart := by
      refine Loop.run_congr hkeeps (fun t holds => ?_) hstart fuel
      refine transmitTurn_congr fun read member => ?_
      have hread := turnReads_inside holds.inside hbounded member
      exact Memory.bytes_congr fun i inside => hother _ (by omega)
    simp only [bulkOut, hcopy]
    rw [show (⟨0, [], false⟩ : Transmission) = transmitStart from rfl, hrun]
    cases Loop.run (transmitTurn (copyPacket s packet)) fuel transmitStart with
    | none => simp
    | some last => cases hdropped : last.dropped <;> simp [hdropped]
  · obtain ⟨last, hlast⟩ := Loop.run_stops (turnsLeft (copyPacket s packet))
      (fun t next holds turn => Inside.turn holds hbounded turn) hstart le_rfl
    exact ⟨_, _, _, by rw [bulkOut]; exact congrArg _ hlast⟩

/-- And a loop that stays inside its bytes finds them padded. -/
theorem padded_of_contained (fits : s.outLen.toNat ≤ SMSC_BUF_SIZE)
    (contained : Contained s packet) : Padded (arrived s packet) := by
  have hlater : ∀ left count, (copyPacket s packet).outLen.toNat -
      (Loop.turns (transmitTurn (copyPacket s packet)) count
        transmitStart).pos.toNat ≤ left →
      (Loop.turns (transmitTurn (copyPacket s packet)) count
        transmitStart).dropped = false →
      Padded (received (copyPacket s packet)
        (Loop.turns (transmitTurn (copyPacket s packet)) count
          transmitStart)) := by
    intro left
    induction left with
    | zero =>
        intro count few _
        refine .rest ?_
        rw [wholeBlock, if_pos]
        rw [received_length]
        omega
    | succ left ih =>
        intro count few running
        have hinside := contained.ordered count
        generalize hturns : Loop.turns (transmitTurn (copyPacket s packet))
          count transmitStart = t at few running hinside ⊢
        cases whole : wholeBlock (received (copyPacket s packet) t) with
        | none => exact .rest whole
        | some size =>
            obtain ⟨hsize, next, hturn, hpos, hdropped⟩ :=
              transmitTurn_whole hinside contained.bounded running whole
            rw [← hturns] at hturn
            have hnext := Loop.turns_succ hturn
            have horder := contained.ordered (count + 1)
            have hpadded := ih (count + 1)
            rw [hnext] at horder hpadded
            have harrived : size ≤
                (received (copyPacket s packet) t).length := by
              rw [received_length]
              omega
            refine .block whole harrived ?_
            rw [← received_next harrived hpos]
            exact hpadded (by omega) hdropped
  have hwhole := hlater _ 0 le_rfl rfl
  rwa [← received_transmitStart fits]

theorem contained_iff (fits : s.outLen.toNat ≤ SMSC_BUF_SIZE) :
    Contained s packet ↔ Padded (arrived s packet) :=
  ⟨padded_of_contained fits, contained_of_padded fits⟩

/-- What a packet leaves in the buffer still fits. -/
theorem bulkOut_bounded (fits : s.outLen.toNat ≤ SMSC_BUF_SIZE)
    (padded : Padded (arrived s packet)) {fuel : Nat} {next : SMSCState}
    {sent : List (List UInt8)} (step : bulkOut fuel s packet = some (next, sent)) :
    next.outLen.toNat ≤ SMSC_BUF_SIZE := by
  have hbounded := copyPacket_bounded packet fits
  simp only [bulkOut, Option.map_eq_some_iff] at step
  obtain ⟨last, hrun, hstep⟩ := step
  obtain ⟨hlast, -⟩ := Loop.run_invariant
    (fun t next holds turn => (Inside.turn holds hbounded turn).1)
    (inside_of_padded fits padded) hrun
  by_cases dropped : last.dropped = true
  · rw [if_pos dropped, Prod.mk.injEq] at hstep
    rw [← hstep.1]
    exact Nat.zero_le _
  · rw [if_neg dropped, Prod.mk.injEq] at hstep
    rw [← hstep.1, keepRest]
    split
    · exact hbounded
    · have hleft := Word.toNat_sub_of_le hlast.inside
      simp only
      omega

end Packet

/-! ## Every packet of a run -/

/-- A packet, and the registers as the driver has set them when it arrives. -/
structure Arrival where
  reg : Nat → UInt32
  packet : List UInt8

/-- The statement holds of every packet, in the state in which it arrives. -/
def EveryPacket (P : SMSCState → List UInt8 → Prop) :
    SMSCState → List Arrival → Prop
  | _, [] => True
  | s, arrival :: arrivals =>
      P { s with reg := arrival.reg } arrival.packet ∧
        ∀ fuel next sent,
          bulkOut fuel { s with reg := arrival.reg } arrival.packet =
            some (next, sent) → EveryPacket P next arrivals

theorem everyPacket_contained_iff {s : SMSCState}
    (fits : s.outLen.toNat ≤ SMSC_BUF_SIZE) (arrivals : List Arrival) :
    EveryPacket Contained s arrivals ↔
      EveryPacket (fun s packet => Padded (arrived s packet)) s arrivals := by
  induction arrivals generalizing s with
  | nil => exact Iff.rfl
  | cons arrival arrivals ih =>
      have hfits : ({ s with reg := arrival.reg } : SMSCState).outLen.toNat ≤
          SMSC_BUF_SIZE := fits
      simp only [EveryPacket]
      rw [contained_iff hfits]
      refine and_congr_right fun padded => ?_
      refine forall_congr' fun fuel => forall_congr' fun next => ?_
      refine forall_congr' fun sent => imp_congr_right fun step => ?_
      exact ih (bulkOut_bounded hfits padded step)

/--
Transmission stays inside the received data in every step of a run exactly when
no packet brings a block whole without all of its padding.
-/
theorem transmit_contained {s : SMSCState} (empty : s.outLen = 0)
    (arrivals : List Arrival) :
    EveryPacket Contained s arrivals ↔
      EveryPacket (fun s packet => Padded (arrived s packet)) s arrivals :=
  everyPacket_contained_iff (by rw [empty]; exact Nat.zero_le _) arrivals

/-- A packet with a whole block is parsed inside its bytes. -/
theorem transmit_contained_odd :
    EveryPacket Contained enabledDevice
      [⟨enabledDevice.reg, oddBlock.bytes⟩] :=
  (@transmit_contained enabledDevice rfl
    [⟨enabledDevice.reg, oddBlock.bytes⟩]).mpr
    ⟨@Padded.block (arrived enabledDevice oddBlock.bytes) 24 (by decide)
      (by decide) (.rest (by decide)), fun _ _ _ _ => trivial⟩

/-- One that ends in front of the block's padding is not. -/
theorem transmit_contained_not_short :
    (Loop.turns (transmitTurn (copyPacket enabledDevice
        (oddBlock.bytes.take 23))) 1 transmitStart).pos = 24 ∧
      (copyPacket enabledDevice (oddBlock.bytes.take 23)).outLen = 23 ∧
      ¬ EveryPacket Contained enabledDevice
        [⟨enabledDevice.reg, oddBlock.bytes.take 23⟩] := by
  have hpos : (Loop.turns (transmitTurn (copyPacket enabledDevice
      (oddBlock.bytes.take 23))) 1 transmitStart).pos = 24 := by
    decide +kernel
  have hlen : (copyPacket enabledDevice (oddBlock.bytes.take 23)).outLen =
      23 := by
    decide +kernel
  refine ⟨hpos, hlen, fun every => ?_⟩
  have hordered := every.1.ordered 1
  simp only [hlen, hpos] at hordered
  exact absurd hordered (by decide)

end RiscosBuilder.Usb
