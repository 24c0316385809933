import RiscosBuilder.Library.Reassembly
import RiscosBuilder.Library.Word
import RiscosBuilder.Usb.Smsc95xx
import Mathlib.Data.List.Infix

/-!
# Transmit blocks

The blocks that a driver writes, and what the device makes of the packets they
are cut into.
-/

namespace RiscosBuilder.Usb

open RiscosBuilder.Library RiscosBuilder.Library.ByteImage
  RiscosBuilder.Library.Reassembly

theorem dataOffset_toNat_le (cmdA : UInt32) :
    (dataOffset cmdA).toNat ≤ 31 := by
  rw [dataOffset, UInt32.toNat_shiftRight, UInt32.toNat_and]
  have hmask := Nat.and_le_right (n := cmdA.toNat)
    (m := TX_CMD_A_DATA_OFFSET.toNat)
  rw [Nat.shiftRight_eq_div_pow]
  calc (cmdA.toNat &&& TX_CMD_A_DATA_OFFSET.toNat) / 2 ^ _
      ≤ TX_CMD_A_DATA_OFFSET.toNat / 2 ^ 16 := Nat.div_le_div_right hmask
    _ = 31 := by decide

theorem frameLength_toNat_le (cmdB : UInt32) :
    (frameLength cmdB).toNat ≤ 2047 := by
  rw [frameLength, UInt32.toNat_and]
  exact Nat.and_le_right

/-- The length that the loop computes does not wrap. -/
theorem span_toNat (cmdA cmdB : UInt32) :
    (8 + dataOffset cmdA + frameLength cmdB).toNat =
      8 + (dataOffset cmdA).toNat + (frameLength cmdB).toNat := by
  have hoff := dataOffset_toNat_le cmdA
  have hlen := frameLength_toNat_le cmdB
  have height : (8 : UInt32).toNat = 8 := rfl
  have hfirst : (8 + dataOffset cmdA).toNat = 8 + (dataOffset cmdA).toNat :=
    Word.toNat_add_of_lt (by omega)
  rw [Word.toNat_add_of_lt (by omega), hfirst]

/-- Nor does its rounding up to a word. -/
theorem aligned_toNat (cmdA cmdB : UInt32) :
    ((8 + dataOffset cmdA + frameLength cmdB + 3) &&& ~~~3).toNat =
      (8 + (dataOffset cmdA).toNat + (frameLength cmdB).toNat + 3) / 4 * 4 := by
  have hoff := dataOffset_toNat_le cmdA
  have hlen := frameLength_toNat_le cmdB
  have hspan := span_toNat cmdA cmdB
  have hthree : (3 : UInt32).toNat = 3 := rfl
  rw [Word.toNat_and_not (k := 2) (by decide) rfl,
    Word.toNat_add_of_lt (by omega), hspan]
  rfl

theorem csum_toNat_le (cmdB : UInt32) : (csum cmdB).toNat ≤ 4 := by
  unfold csum
  split <;> decide

/-- Nor does the place where the frame, less its preamble, begins. -/
theorem start_toNat {pos : UInt32} (low : pos.toNat ≤ SMSC_BUF_SIZE)
    (cmdA cmdB : UInt32) :
    (pos + 8 + dataOffset cmdA + csum cmdB).toNat =
      pos.toNat + 8 + (dataOffset cmdA).toNat + (csum cmdB).toNat := by
  have hoff := dataOffset_toNat_le cmdA
  have hcsum := csum_toNat_le cmdB
  have height : (8 : UInt32).toNat = 8 := rfl
  simp only [SMSC_BUF_SIZE] at low
  have hfirst : (pos + 8).toNat = pos.toNat + 8 :=
    Word.toNat_add_of_lt (by omega)
  have hsecond : (pos + 8 + dataOffset cmdA).toNat =
      pos.toNat + 8 + (dataOffset cmdA).toNat := by
    rw [Word.toNat_add_of_lt (by omega), hfirst]
  rw [Word.toNat_add_of_lt (by omega), hsecond]

/-- A transmit block: two command words, a filler and a frame. -/
structure TxBlock where
  cmdA : UInt32
  cmdB : UInt32
  filler : List UInt8
  frame : List UInt8
  filler_length : filler.length = (dataOffset cmdA).toNat
  frame_length : frame.length = (frameLength cmdB).toNat
  frame_min : 14 ≤ frame.length
  frame_max : frame.length ≤ 1518

namespace TxBlock

/-- The command words, the filler and the frame. -/
def content (block : TxBlock) : List UInt8 :=
  leBytes 4 block.cmdA.toNat ++
    (leBytes 4 block.cmdB.toNat ++ (block.filler ++ block.frame))

/-- The block on the wire: zeros up to a multiple of four follow. -/
def bytes (block : TxBlock) : List UInt8 :=
  block.content ++
    List.replicate ((block.content.length + 3) / 4 * 4 -
      block.content.length) 0

/-- The frame that the network is to be handed. -/
def out (block : TxBlock) : List UInt8 :=
  padded block.cmdB (block.frame.drop (csum block.cmdB).toNat)

theorem content_length (block : TxBlock) :
    block.content.length = 8 + block.filler.length + block.frame.length := by
  simp only [content, List.length_append, leBytes_length]
  omega

theorem bytes_length (block : TxBlock) :
    block.bytes.length = (block.content.length + 3) / 4 * 4 := by
  simp only [bytes, List.length_append, List.length_replicate]
  omega

/-- A block is ready once its content is there. -/
def coding : Reassembly.Coding UInt8 TxBlock where
  bytes := bytes
  ready := fun block => block.content.length
  ready_le block := by
    rw [bytes_length]
    omega

theorem content_length_le (block : TxBlock) :
    block.content.length ≤ 1557 := by
  have hoff := dataOffset_toNat_le block.cmdA
  have hframe := block.frame_max
  rw [content_length, block.filler_length]
  omega

theorem sane (block : TxBlock) :
    ¬ (frameLength block.cmdB < SMSC_MIN_FRAME ∨
      SMSC_MAX_FRAME + 4 < frameLength block.cmdB) := by
  have hmin := block.frame_min
  have hmax := block.frame_max
  rw [block.frame_length] at hmin hmax
  rw [UInt32.lt_iff_toNat_lt, UInt32.lt_iff_toNat_lt]
  rw [show SMSC_MIN_FRAME.toNat = 14 from rfl,
    show (SMSC_MAX_FRAME + 4).toNat = 1518 from rfl]
  omega

/-- The length that the loop computes is the content's. -/
theorem content_toNat (block : TxBlock) :
    (8 + dataOffset block.cmdA + frameLength block.cmdB).toNat =
      block.content.length := by
  rw [span_toNat, content_length, block.filler_length, block.frame_length]

/-- And the step to the next block is the block's length on the wire. -/
theorem bytes_toNat (block : TxBlock) :
    ((8 + dataOffset block.cmdA + frameLength block.cmdB + 3) &&&
      ~~~3).toNat = block.bytes.length := by
  rw [aligned_toNat, bytes_length, content_length, block.filler_length,
    block.frame_length]

end TxBlock

theorem words_of_at {memory : Memory} {pos : Nat} {cmdA cmdB : UInt32}
    {more : List UInt8}
    (held : memory.At pos
      (leBytes 4 cmdA.toNat ++ (leBytes 4 cmdB.toNat ++ more))) :
    memory.ldl pos = cmdA ∧ memory.ldl (pos + 4) = cmdB := by
  rw [Memory.at_append, Memory.at_append, leBytes_length] at held
  exact ⟨held.1.ldl_eq, held.2.1.ldl_eq⟩

/-- Where the frame, less its preamble, begins. -/
theorem TxBlock.start_toNat (block : TxBlock) {pos : UInt32}
    (low : pos.toNat ≤ SMSC_BUF_SIZE) :
    (pos + 8 + dataOffset block.cmdA + csum block.cmdB).toNat =
      pos.toNat + (8 + block.filler.length) + (csum block.cmdB).toNat := by
  rw [Usb.start_toNat low, block.filler_length, Nat.add_assoc pos.toNat 8]

/-- What is read there is the frame without the preamble. -/
theorem TxBlock.frame_bytes (block : TxBlock) {memory : Memory} {pos : Nat}
    (held : memory.At pos block.content) :
    memory.bytes (pos + (8 + block.filler.length) + (csum block.cmdB).toNat)
      (frameLength block.cmdB - csum block.cmdB).toNat =
        block.frame.drop (csum block.cmdB).toNat := by
  have hcsum := csum_toNat_le block.cmdB
  have hframe := block.frame_length
  have hmin := block.frame_min
  have hsize : (frameLength block.cmdB - csum block.cmdB).toNat =
      (block.frame.drop (csum block.cmdB).toNat).length := by
    rw [Word.toNat_sub_of_le (by omega), List.length_drop, hframe]
  have htake : (block.frame.take (csum block.cmdB).toNat).length =
      (csum block.cmdB).toNat := by
    rw [List.length_take]
    omega
  rw [TxBlock.content, Memory.at_append, Memory.at_append, Memory.at_append,
    leBytes_length, leBytes_length] at held
  obtain ⟨-, -, -, held⟩ := held
  rw [show block.frame = block.frame.take (csum block.cmdB).toNat ++
    block.frame.drop (csum block.cmdB).toNat from
      (List.take_append_drop _ _).symm, Memory.at_append, htake] at held
  rw [hsize, show pos + (8 + block.filler.length) + (csum block.cmdB).toNat =
    pos + 4 + 4 + block.filler.length + (csum block.cmdB).toNat by omega]
  exact held.2

/-- A block that has arrived is sent, and the loop goes on behind it. -/
theorem transmitTurn_block {s : SMSCState} {t : Transmission} {block : TxBlock}
    (running : t.dropped = false) (enabled : txEnabled s = true)
    (held : s.outBuf.At t.pos.toNat block.content)
    (inside : t.pos.toNat + block.bytes.length ≤ s.outLen.toNat)
    (fits : s.outLen.toNat ≤ SMSC_BUF_SIZE) :
    ∃ pos, transmitTurn s t = some ⟨pos, t.sent ++ [block.out], false⟩ ∧
      pos.toNat = t.pos.toNat + block.bytes.length := by
  have hready := TxBlock.coding.ready_le block
  simp only [TxBlock.coding] at hready
  have hcontent := block.content_length
  have hlength := block.content_length_le
  have hcsum := csum_toNat_le block.cmdB
  have hframe := block.frame_length
  have hfiller := block.filler_length
  have hmin := block.frame_min
  simp only [SMSC_BUF_SIZE] at fits
  have hpos : (t.pos + 4).toNat = t.pos.toNat + 4 :=
    Word.toNat_add_of_lt (by rw [show (4 : UInt32).toNat = 4 from rfl]; omega)
  obtain ⟨hcmdA, hcmdB⟩ := words_of_at held
  have hleft : (s.outLen - t.pos).toNat = s.outLen.toNat - t.pos.toNat :=
    Word.toNat_sub_of_le (by omega)
  have htest : ¬ (t.dropped = true ∨ ¬ 8 ≤ s.outLen - t.pos) := by
    rw [UInt32.le_iff_toNat_le, hleft, running,
      show (8 : UInt32).toNat = 8 from rfl]
    simp only [Bool.false_eq_true, false_or]
    omega
  have hwhole : ¬ s.outLen - t.pos <
      8 + dataOffset block.cmdA + frameLength block.cmdB := by
    rw [UInt32.lt_iff_toNat_lt, hleft, block.content_toNat]
    omega
  have hsend : csum block.cmdB < frameLength block.cmdB ∧
      txEnabled s = true := by
    refine ⟨?_, enabled⟩
    rw [UInt32.lt_iff_toNat_lt]
    omega
  have hstart := block.start_toNat
    (show t.pos.toNat ≤ SMSC_BUF_SIZE by simp only [SMSC_BUF_SIZE]; omega)
  have hsent := block.frame_bytes held
  rw [← hstart] at hsent
  refine ⟨t.pos + ((8 + dataOffset block.cmdA + frameLength block.cmdB + 3) &&&
    ~~~3), ?_, ?_⟩
  · unfold transmitTurn
    rw [if_neg htest]
    simp only [hpos, hcmdA, hcmdB, if_neg block.sane, if_neg hwhole,
      if_pos hsend, hsent, running]
    rfl
  · rw [Word.toNat_add_of_lt] <;> rw [block.bytes_toNat]
    omega

/-- The loop ends in front of a block whose content has not arrived. -/
theorem transmitTurn_incomplete {s : SMSCState} {t : Transmission}
    {rest : List TxBlock} {later : List UInt8}
    (held : s.outBuf.At t.pos.toNat later)
    (whole : s.outLen.toNat = t.pos.toNat + later.length)
    (incomplete : TxBlock.coding.Incomplete later rest)
    (front : later <+: TxBlock.coding.stream rest) :
    transmitTurn s t = none := by
  have hleft : (s.outLen - t.pos).toNat = later.length := by
    rw [Word.toNat_sub_of_le (by omega), whole, Nat.add_sub_cancel_left]
  unfold transmitTurn
  by_cases test : t.dropped = true ∨ ¬ 8 ≤ s.outLen - t.pos
  · rw [if_pos test]
  · rw [if_neg test]
    rw [not_or, not_not, UInt32.le_iff_toNat_le, hleft,
      show (8 : UInt32).toNat = 8 from rfl] at test
    cases rest with
    | nil =>
        have hempty : later = [] := incomplete
        simp [hempty] at test
    | cons block rest =>
        have hshort : later.length < block.content.length := incomplete
        obtain ⟨more, hmore⟩ : leBytes 4 block.cmdA.toNat ++
            leBytes 4 block.cmdB.toNat <+: later := by
          apply List.prefix_of_prefix_length_le _ front
          · rw [List.length_append, leBytes_length, leBytes_length]
            exact test.2
          · simp only [Reassembly.Coding.stream, TxBlock.coding,
              List.flatMap_cons, TxBlock.bytes, TxBlock.content,
              List.append_assoc]
            exact ⟨_, List.append_assoc _ _ _⟩
        rw [← hmore, List.append_assoc] at held
        obtain ⟨hcmdA, hcmdB⟩ := words_of_at held
        have hpos : (t.pos + 4).toNat = t.pos.toNat + 4 := by
          apply Word.toNat_add_of_lt
          rw [show (4 : UInt32).toNat = 4 from rfl]
          have hlimit := s.outLen.toNat_lt
          omega
        have hwait : s.outLen - t.pos <
            8 + dataOffset block.cmdA + frameLength block.cmdB := by
          rw [UInt32.lt_iff_toNat_lt, hleft, block.content_toNat]
          exact hshort
        simp only [hpos, hcmdA, hcmdB, if_neg block.sane, if_pos hwait]

/-- The loop sends the blocks that have arrived and stops behind them. -/
theorem run_transmitTurn {s : SMSCState} (enabled : txEnabled s = true)
    (fits : s.outLen.toNat ≤ SMSC_BUF_SIZE) {rest : List TxBlock}
    {later : List UInt8} (incomplete : TxBlock.coding.Incomplete later rest)
    (front : later <+: TxBlock.coding.stream rest) (after : List TxBlock)
    {t : Transmission} (running : t.dropped = false)
    (held : s.outBuf.At t.pos.toNat (TxBlock.coding.stream after ++ later))
    (whole : s.outLen.toNat =
      t.pos.toNat + (TxBlock.coding.stream after ++ later).length)
    {fuel : Nat} (enough : after.length ≤ fuel) :
    ∃ pos, Loop.run (transmitTurn s) fuel t =
        some ⟨pos, t.sent ++ after.map TxBlock.out, false⟩ ∧
      pos.toNat = t.pos.toNat + (TxBlock.coding.stream after).length := by
  induction after generalizing t fuel with
  | nil =>
      refine ⟨t.pos, ?_, rfl⟩
      rw [Loop.run_of_done fuel
        (transmitTurn_incomplete held whole incomplete front), ← running]
      simp
  | cons block after ih =>
      obtain ⟨fuel, rfl⟩ := Nat.exists_eq_add_of_lt
        (Nat.lt_of_lt_of_le (Nat.zero_lt_succ _) enough)
      rw [Nat.zero_add]
      have hstream : TxBlock.coding.stream (block :: after) =
          block.bytes ++ TxBlock.coding.stream after := List.flatMap_cons
      rw [hstream, List.append_assoc] at held whole
      rw [List.length_append] at whole
      obtain ⟨hblock, hafter⟩ := Memory.at_append.mp held
      obtain ⟨pos, hturn, hpos⟩ := transmitTurn_block running enabled
        (Memory.at_append.mp hblock).1 (by omega) fits
      rw [← hpos] at hafter
      obtain ⟨last, hlast, hend⟩ := @ih ⟨pos, t.sent ++ [block.out], false⟩ rfl
        hafter (by simp only; omega) fuel
        (by simp only [List.length_cons] at enough; omega)
      refine ⟨last, ?_, ?_⟩
      · rw [Loop.run_of_turn hturn, hlast]
        simp
      · rw [hend, hpos, hstream, List.length_append, Nat.add_assoc]

/-- The transmitter is on, and `out_buf` holds just the given bytes. -/
structure Buffered (s : SMSCState) (tail : List UInt8) : Prop where
  enabled : txEnabled s = true
  outLen : s.outLen.toNat = tail.length
  held : s.outBuf.At 0 tail

theorem Buffered.copyPacket {s : SMSCState} {tail packet : List UInt8}
    (buffered : Buffered s tail) (short : tail.length ≤ 1557)
    (small : packet.length ≤ 16384) :
    Buffered (copyPacket s packet) (tail ++ packet) := by
  have hlen := buffered.outLen
  have hroom : (UInt32.ofNat SMSC_BUF_SIZE - s.outLen).toNat =
      SMSC_BUF_SIZE - tail.length := by
    rw [Word.toNat_sub_of_le, hlen]
    · rfl
    · rw [hlen, show (UInt32.ofNat SMSC_BUF_SIZE).toNat = 18432 from rfl]
      omega
  have hsize : (UInt32.ofNat packet.length).toNat = packet.length :=
    UInt32.toNat_ofNat_of_lt' (by rw [UInt32.size]; omega)
  have hfits : (UInt32.ofNat SMSC_BUF_SIZE - s.outLen).toNat >
      packet.length := by
    rw [hroom, SMSC_BUF_SIZE]
    omega
  simp only [Usb.copyPacket, if_pos hfits, hsize, List.take_length]
  refine ⟨buffered.enabled, ?_, ?_⟩
  · rw [Word.toNat_add_of_lt] <;> rw [hsize, hlen]
    · rw [List.length_append]
    · omega
  · simp only
    rw [Memory.at_append, Nat.zero_add, hlen]
    exact ⟨buffered.held.store_apart (Or.inl (by omega)),
      Memory.at_store_same _ _ _⟩

theorem Buffered.keepRest {s : SMSCState} {done later : List UInt8}
    (buffered : Buffered s (done ++ later)) {pos : UInt32}
    (behind : pos.toNat = done.length) : Buffered (keepRest s pos) later := by
  have hlen := buffered.outLen
  have hheld := buffered.held
  rw [List.length_append] at hlen
  rw [Memory.at_append, Nat.zero_add] at hheld
  unfold Usb.keepRest
  by_cases start : pos = 0
  · rw [if_pos start]
    have hdone : done.length = 0 := by
      rw [← behind, start]
      rfl
    refine ⟨buffered.enabled, by omega, ?_⟩
    rw [← hdone]
    exact hheld.2
  · rw [if_neg start]
    have hleft : (s.outLen - pos).toNat = later.length := by
      rw [Word.toNat_sub_of_le (by omega)]
      omega
    have hbytes : s.outBuf.bytes pos.toNat later.length = later :=
      behind ▸ hheld.2
    refine ⟨buffered.enabled, hleft, ?_⟩
    simp only [hleft, hbytes]
    exact Memory.at_store_same _ _ _

theorem length_le_stream (blocks : List TxBlock) :
    blocks.length ≤ (TxBlock.coding.stream blocks).length := by
  induction blocks with
  | nil => exact Nat.le_refl 0
  | cons block blocks ih =>
      have hready := TxBlock.coding.ready_le block
      have hlength := block.content_length
      have hmin := block.frame_min
      have hstream : TxBlock.coding.stream (block :: blocks) =
          block.bytes ++ TxBlock.coding.stream blocks := List.flatMap_cons
      simp only [TxBlock.coding] at hready
      rw [hstream, List.length_append, List.length_cons]
      omega

/-- One packet: the blocks that it completes are sent. -/
theorem bulkOut_blocks {s : SMSCState} {tail packet later : List UInt8}
    {done rest : List TxBlock} (buffered : Buffered s tail)
    (small : packet.length ≤ 16384)
    (incomplete : TxBlock.coding.Incomplete tail (done ++ rest))
    (split : tail ++ packet = TxBlock.coding.stream done ++ later)
    (incompleteLater : TxBlock.coding.Incomplete later rest)
    (front : later <+: TxBlock.coding.stream rest) {fuel : Nat}
    (enough : SMSC_BUF_SIZE ≤ fuel) :
    ∃ next, bulkOut fuel s packet = some (next, done.map TxBlock.out) ∧
      Buffered next later := by
  have hshort : tail.length ≤ 1557 := by
    cases hblocks : done ++ rest with
    | nil =>
        rw [hblocks] at incomplete
        have hempty : tail = [] := incomplete
        simp [hempty]
    | cons block blocks =>
        rw [hblocks] at incomplete
        have hlt : tail.length < block.content.length := incomplete
        have hle := block.content_length_le
        omega
  have hcopied := buffered.copyPacket hshort small
  have hlimit : (tail ++ packet).length ≤ SMSC_BUF_SIZE := by
    rw [List.length_append, SMSC_BUF_SIZE]
    omega
  have hcount := length_le_stream done
  have hlen := hcopied.outLen
  have hheld := hcopied.held
  rw [split] at hlen hheld hcopied hlimit
  rw [List.length_append] at hlimit
  obtain ⟨pos, hrun, hpos⟩ := @run_transmitTurn (copyPacket s packet)
    hcopied.enabled (by rw [hlen, List.length_append]; exact hlimit) rest later
    incompleteLater front done ⟨0, [], false⟩ rfl hheld
    (by rw [hlen]; exact (Nat.zero_add _).symm) fuel (by omega)
  have hbehind : pos.toNat = (TxBlock.coding.stream done).length := by
    rw [hpos]
    exact Nat.zero_add _
  refine ⟨_, ?_, hcopied.keepRest hbehind⟩
  simp [bulkOut, hrun]

/--
However the blocks are cut into packets, the network is handed their frames, as
long as no packet ends in the zeros behind a frame, or just in front of them.
-/
theorem transmit_reassembles {blocks : List TxBlock}
    {packets : List (List UInt8)}
    (cut : packets.flatten = TxBlock.coding.stream blocks)
    (small : ∀ packet ∈ packets, packet.length ≤ 16384)
    (uncut : ∀ arrived, arrived <+: packets →
      ¬ TxBlock.coding.CutInside blocks arrived.flatten.length)
    {s : SMSCState} (enabled : txEnabled s = true) (empty : s.outLen = 0)
    {fuel : Nat} (enough : SMSC_BUF_SIZE ≤ fuel) :
    ∃ last, Reassembly.Coding.feedAll (bulkOut fuel) s packets =
        some (last, blocks.map TxBlock.out) ∧ last.outLen = 0 := by
  have hbuffered : Buffered s [] := ⟨enabled, by rw [empty]; rfl, rfl⟩
  have hincomplete : TxBlock.coding.Incomplete [] blocks := by
    cases blocks with
    | nil => rfl
    | cons block blocks =>
        have hpos : 0 < block.content.length := by
          rw [block.content_length]
          omega
        exact hpos
  have huncut : TxBlock.coding.Uncut [] blocks packets := by
    intro arrived front
    rw [List.length_nil, Nat.zero_add]
    exact uncut arrived front
  obtain ⟨last, hlast, hempty⟩ := @Reassembly.Coding.feedAll_items UInt8
    TxBlock TxBlock.coding SMSCState (List UInt8) TxBlock.out (bulkOut fuel)
    Buffered (fun packet => packet.length ≤ 16384) (fun held allowed before split after front =>
      bulkOut_blocks held allowed before split after front enough)
    packets small blocks [] s hbuffered hincomplete cut huncut
  refine ⟨last, hlast, ?_⟩
  rw [← UInt32.toNat_inj]
  exact hempty.outLen

/-- A block with the shortest content that is followed by a zero. -/
def oddBlock : TxBlock :=
  ⟨0x3000, 0x200f, [], List.replicate 15 0x61, rfl, rfl, by decide, by decide⟩

/-- A block that needs no zeros. -/
def evenBlock : TxBlock :=
  ⟨0x3000, 0x1010, [], List.replicate 16 0x62, rfl, rfl, by decide, by decide⟩

/-- The device with its transmitter on and its buffer empty. -/
def enabledDevice : SMSCState :=
  ⟨fun i => if i = 4 then TX_CFG_ON else MAC_CR_TXEN, fun _ => 0, 0⟩

/-- Two blocks in three packets, one of which ends inside a command word. -/
theorem transmit_reassembles_three :
    ∃ last, Reassembly.Coding.feedAll (bulkOut SMSC_BUF_SIZE) enabledDevice
        [oddBlock.bytes, evenBlock.bytes.take 3, evenBlock.bytes.drop 3] =
      some (last, [oddBlock, evenBlock].map TxBlock.out) ∧ last.outLen = 0 :=
  @transmit_reassembles [oddBlock, evenBlock]
    [oddBlock.bytes, evenBlock.bytes.take 3, evenBlock.bytes.drop 3]
    (by decide) (by decide) (by
      intro arrived front
      revert arrived
      simp only [← List.mem_inits]
      decide +kernel) enabledDevice (by decide) rfl SMSC_BUF_SIZE le_rfl

/--
A packet that ends in front of the zero behind a frame: the loop runs past the
bytes in the buffer and drops them, and the next frame is lost.
-/
theorem transmit_reassembles_not_padding :
    [oddBlock.bytes.take 23, oddBlock.bytes.drop 23 ++ evenBlock.bytes].flatten =
        TxBlock.coding.stream [oddBlock, evenBlock] ∧
      (Reassembly.Coding.feedAll (bulkOut SMSC_BUF_SIZE) enabledDevice
        [oddBlock.bytes.take 23,
          oddBlock.bytes.drop 23 ++ evenBlock.bytes]).map Prod.snd =
        some [oddBlock.out] ∧
      [oddBlock.out] ≠ [oddBlock, evenBlock].map TxBlock.out := by
  decide +kernel

end RiscosBuilder.Usb
