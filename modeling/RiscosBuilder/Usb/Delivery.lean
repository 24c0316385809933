import RiscosBuilder.Library.Transfer
import RiscosBuilder.Library.Word
import RiscosBuilder.Usb.Receive

/-!
# Delivery of received frames

A frame is stored as a block, and the bulk-IN packets take the block apart: a
driver that reads them as transfers that end in short packets puts together the
blocks of the accepted frames.
-/

namespace RiscosBuilder.Usb

open RiscosBuilder.Library RiscosBuilder.Library.ByteImage
  RiscosBuilder.Library.Transfer

/-- The block of a frame: status word, frame, four zeros, and more to a word. -/
def rxBlock (frame : List UInt8) : List UInt8 :=
  leBytes 4 ((frame.length + 4) * 2 ^ 16) ++ frame ++ List.replicate 4 0 ++
    List.replicate ((4 - frame.length % 4) % 4) 0

/-- The frame that a driver takes out of a block: the length field less four. -/
def readFrame (block : List UInt8) : List UInt8 :=
  let status := UInt32.ofNat (leWord (block.take 4))
  let len := ((status >>> RX_STS_FL_SHIFT) &&& RX_STS_FL_MASK).toNat
  (block.drop 4).take (len - 4)

/-- The bytes in `in_buf` that have not been copied out yet. -/
def rest (s : RxState) : List UInt8 :=
  s.inBuf.bytes s.inPtr.toNat (s.inLen.toNat - s.inPtr.toNat)

/-- A packet that the host controller may submit. -/
def Multiple (s : RxState) (p : USBPacket) : Prop :=
  0 < p.size ∧ p.size % (mps s).toNat = 0

theorem rest_length (s : RxState) :
    (rest s).length = s.inLen.toNat - s.inPtr.toNat :=
  Memory.bytes_length _ _ _

theorem rxBlock_length (frame : List UInt8) :
    (rxBlock frame).length = 4 + (frame.length + 4 + 3) / 4 * 4 := by
  simp only [rxBlock, List.length_append, leBytes_length,
    List.length_replicate]
  omega

/-- The length field gives the frame back. -/
theorem readFrame_rxBlock {frame : List UInt8} (short : frame.length ≤ 1514) :
    readFrame (rxBlock frame) = frame := by
  have hvalue : (frame.length + 4) * 2 ^ 16 < 2 ^ 32 := by omega
  have htake : (rxBlock frame).take 4 =
      leBytes 4 ((frame.length + 4) * 2 ^ 16) := by
    simp only [rxBlock, List.append_assoc]
    exact List.take_left' (leBytes_length _ _)
  have hdrop : (rxBlock frame).drop 4 = frame ++ (List.replicate 4 0 ++
      List.replicate ((4 - frame.length % 4) % 4) 0) := by
    simp only [rxBlock, List.append_assoc]
    exact List.drop_left' (leBytes_length _ _)
  have hfield : ((UInt32.ofNat ((frame.length + 4) * 2 ^ 16) >>>
      RX_STS_FL_SHIFT) &&& RX_STS_FL_MASK).toNat = frame.length + 4 := by
    rw [UInt32.toNat_and, UInt32.toNat_shiftRight,
      UInt32.toNat_ofNat_of_lt' hvalue, Nat.shiftRight_eq_div_pow]
    rw [show RX_STS_FL_SHIFT.toNat % 32 = 16 from rfl,
      show RX_STS_FL_MASK.toNat = 2 ^ 14 - 1 from rfl,
      Nat.mul_div_cancel _ (Nat.two_pow_pos 16),
      Nat.and_two_pow_sub_one_eq_mod]
    omega
  rw [readFrame, htake, hdrop, leWord_leBytes (Nat.lt_of_lt_of_le hvalue le_rfl)]
  simp only [hfield, Nat.add_sub_cancel]
  exact List.take_left' rfl

/-! ## What the device does with a block -/

section Block

variable {s : RxState}

theorem rxBlockLength_toNat {size : Nat} (short : size ≤ 1514) :
    (rxBlockLength size).toNat = 4 + (size + 4 + 3) / 4 * 4 := by
  have hsize : (UInt32.ofNat size).toNat = size :=
    UInt32.toNat_ofNat_of_lt' (by rw [UInt32.size]; omega)
  have hfour : (4 : UInt32).toNat = 4 := rfl
  have hthree : (3 : UInt32).toNat = 3 := rfl
  have hfcs : (UInt32.ofNat size + 4).toNat = size + 4 := by
    rw [Word.toNat_add_of_lt (by omega), hsize, hfour]
  have hraised : (UInt32.ofNat size + 4 + 3).toNat = size + 4 + 3 := by
    rw [Word.toNat_add_of_lt (by omega), hfcs, hthree]
  have hmasked : ((UInt32.ofNat size + 4 + 3) &&& ~~~3).toNat =
      (size + 4 + 3) / 4 * 4 := by
    rw [Word.toNat_and_not (k := 2) (by decide) rfl, hraised]
    rfl
  rw [rxBlockLength, Word.toNat_add_of_lt (by omega), hmasked, hfour]

/-- The frame's block stands in `in_buf`, and all of it is still to be sent. -/
theorem storeFrame_spec {frame : List UInt8} (short : frame.length ≤ 1514) :
    (storeFrame s frame).inLen.toNat = (rxBlock frame).length ∧
      rest (storeFrame s frame) = rxBlock frame := by
  have hlength := rxBlockLength_toNat short
  have hblock := rxBlock_length frame
  have hsize : (UInt32.ofNat frame.length).toNat = frame.length :=
    UInt32.toNat_ofNat_of_lt' (by rw [UInt32.size]; omega)
  have hstatus : ((UInt32.ofNat frame.length + 4) <<<
      RX_STS_FL_SHIFT).toNat = (frame.length + 4) * 2 ^ 16 := by
    have hfcs : (UInt32.ofNat frame.length + 4).toNat = frame.length + 4 := by
      rw [Word.toNat_add_of_lt, hsize]
      · rfl
      · rw [hsize, show (4 : UInt32).toNat = 4 from rfl]
        omega
    rw [UInt32.toNat_shiftLeft, hfcs, Nat.shiftLeft_eq]
    exact Nat.mod_eq_of_lt (by
      rw [show RX_STS_FL_SHIFT.toNat % 32 = 16 from rfl]
      omega)
  have hlen : (storeFrame s frame).inLen.toNat = (rxBlock frame).length := by
    rw [hblock]
    exact hlength
  refine ⟨hlen, ?_⟩
  have hptr : (storeFrame s frame).inPtr.toNat = 0 := rfl
  rw [rest, hlen, hptr, Nat.sub_zero]
  -- The three stores lie one behind the other, as the parts of the block do.
  have hzeros : rxBlock frame =
      leBytes 4 ((UInt32.ofNat frame.length + 4) <<< RX_STS_FL_SHIFT).toNat ++
        (frame ++ List.replicate
          ((rxBlockLength frame.length).toNat - 4 - frame.length) 0) := by
    have hcount : 4 + (frame.length + 4 + 3) / 4 * 4 - 4 - frame.length =
        4 + (4 - frame.length % 4) % 4 := by
      omega
    rw [rxBlock, hstatus, hlength, hcount, List.replicate_add]
    simp only [List.append_assoc]
  have hat : (storeFrame s frame).inBuf.At 0 (rxBlock frame) := by
    rw [hzeros, Memory.at_append, Memory.at_append, leBytes_length]
    simp only [storeFrame, Memory.stl]
    refine ⟨?_, ?_, ?_⟩
    · exact Memory.At.store_apart (Memory.At.store_apart
        (Memory.at_store_same _ _ _) (Or.inl (by simp))) (Or.inl (by simp))
    · exact Memory.At.store_apart (Memory.at_store_same _ _ _)
        (Or.inl (by omega))
    · rw [Nat.zero_add]
      exact Memory.at_store_same _ _ _
  exact hat

/-- `len`: so many bytes of the block go into a packet. -/
def copied (s : RxState) (p : USBPacket) : UInt32 :=
  if (s.inLen - s.inPtr).toNat > p.size then UInt32.ofNat p.size
  else s.inLen - s.inPtr

theorem copied_toNat (p : USBPacket) (ordered : s.inPtr.toNat ≤ s.inLen.toNat) :
    (copied s p).toNat = min p.size (rest s).length := by
  have hlimit := s.inLen.toNat_lt
  have hleft : (s.inLen - s.inPtr).toNat = (rest s).length := by
    rw [Word.toNat_sub_of_le ordered, rest_length]
  have hrest := rest_length s
  unfold copied
  split
  · rw [UInt32.toNat_ofNat_of_lt' (by rw [UInt32.size]; omega)]
    omega
  · omega

theorem bytes_copied {p : USBPacket} (ordered : s.inPtr.toNat ≤ s.inLen.toNat) :
    s.inBuf.bytes s.inPtr.toNat (copied s p).toNat = (rest s).take p.size := by
  have hlen := copied_toNat p ordered
  rw [rest, ← rest_length]
  obtain ⟨more, hmore⟩ := Nat.exists_eq_add_of_le
    (show (copied s p).toNat ≤ (rest s).length by omega)
  rw [hmore, Memory.bytes_append]
  by_cases whole : (rest s).length ≤ p.size
  · have hnone : more = 0 := by omega
    rw [hnone, List.take_of_length_le]
    · exact (List.append_nil _).symm
    · simp only [List.length_append, Memory.bytes_length]
      omega
  · rw [List.take_left']
    rw [Memory.bytes_length]
    omega

/-- How far the pointer goes, which does not wrap. -/
theorem advanced_toNat {p : USBPacket} (ordered : s.inPtr.toNat ≤ s.inLen.toNat) :
    (s.inPtr + copied s p).toNat =
      s.inPtr.toNat + min p.size (rest s).length := by
  have hlimit := s.inLen.toNat_lt
  have hrest := rest_length s
  have hlen := copied_toNat p ordered
  rw [Word.toNat_add_of_lt (by omega), hlen]

/-- The test for the end of a block, in natural numbers. -/
theorem copied_ends_iff {p : USBPacket} (ordered : s.inPtr.toNat ≤ s.inLen.toNat)
    (positive : 0 < p.size) :
    (s.inPtr + copied s p ≥ s.inLen ∧ (s.inLen % mps s ≠ 0 ∨ copied s p = 0)) ↔
      (rest s).length ≤ p.size ∧
        (s.inLen.toNat % (mps s).toNat ≠ 0 ∨ rest s = []) := by
  have hrest := rest_length s
  have hlen := copied_toNat p ordered
  have hzero : copied s p = 0 ↔ rest s = [] := by
    rw [← UInt32.toNat_inj, hlen, ← List.length_eq_zero_iff]
    simp only [UInt32.toNat_zero]
    omega
  have hend : s.inPtr + copied s p ≥ s.inLen ↔ (rest s).length ≤ p.size := by
    rw [ge_iff_le, UInt32.le_iff_toNat_le, advanced_toNat ordered]
    omega
  have hmod : s.inLen % mps s ≠ 0 ↔ s.inLen.toNat % (mps s).toNat ≠ 0 := by
    rw [ne_eq, ← UInt32.toNat_inj, UInt32.toNat_mod, UInt32.toNat_zero]
  exact and_congr hend (or_congr hmod hzero)

/-- What a packet takes from a block, and when that frees the buffer. -/
theorem copyOut_spec {p : USBPacket} (ordered : s.inPtr.toNat ≤ s.inLen.toNat)
    (positive : 0 < p.size) :
    (copyOut s p).2 = ⟨p, .success, (rest s).take p.size⟩ ∧
      ((rest s).length ≤ p.size ∧
          (s.inLen.toNat % (mps s).toNat ≠ 0 ∨ rest s = []) →
        (copyOut s p).1 = resetIn s) ∧
      (¬ ((rest s).length ≤ p.size ∧
          (s.inLen.toNat % (mps s).toNat ≠ 0 ∨ rest s = [])) →
        ∃ ptr, (copyOut s p).1 = { s with inPtr := ptr } ∧
          ptr.toNat = s.inPtr.toNat + min p.size (rest s).length) := by
  have hcopy : copyOut s p =
      if s.inPtr + copied s p ≥ s.inLen ∧
          (s.inLen % mps s ≠ 0 ∨ copied s p = 0) then
        (resetIn s, ⟨p, .success, (rest s).take p.size⟩)
      else ({ s with inPtr := s.inPtr + copied s p },
        ⟨p, .success, (rest s).take p.size⟩) := by
    rw [← bytes_copied ordered]
    rfl
  simp only [copied_ends_iff ordered positive] at hcopy
  refine ⟨?_, fun finished => ?_, fun more => ?_⟩
  · rw [hcopy]
    split <;> rfl
  · rw [hcopy, if_pos finished]
  · exact ⟨s.inPtr + copied s p, by rw [hcopy, if_neg more], advanced_toNat ordered⟩

end Block

/-! ## The invariant of a run -/

/-- The four state variables of reception agree. -/
structure Bounds (s : RxState) : Prop where
  ordered : s.inPtr ≤ s.inLen
  bounded : s.inLen.toNat ≤ SMSC_BUF_SIZE
  parked : s.inPkt.isSome → s.inLen = 0

/--
What a reader has made of the completed packets: the blocks of all accepted
frames, or of all but the last, whose block is in part read and in part still in
`in_buf`.
-/
inductive Progress (s : RxState) (frames packets : List (List UInt8)) : Prop where
  | idle (empty : s.inLen = 0)
      (read : collect (mps s).toNat packets = (frames.map rxBlock, []))
  | busy {done : List (List UInt8)} {frame part : List UInt8}
      (busy : s.inLen ≠ 0) (last : frames = done ++ [frame])
      (read : collect (mps s).toNat packets = (done.map rxBlock, part))
      (whole : part ++ rest s = rxBlock frame)
      (length : s.inLen.toNat = (rxBlock frame).length)

structure Delivering (s : RxState) (frames packets : List (List UInt8)) :
    Prop where
  bounds : Bounds s
  multiple : ∀ p, s.inPkt = some p → Multiple s p
  progress : Progress s frames packets

/-- The bytes that an answer delivers. -/
def answered (answer : Answer) : List (List UInt8) :=
  if answer.status = .success then [answer.data] else []

section Output

variable {outputs : List RxOutput}

@[simp] theorem accepted_nil : accepted [] = [] :=
  rfl

@[simp] theorem delivered_nil : delivered [] = [] :=
  rfl

@[simp] theorem accepted_accepted (frame : List UInt8) :
    accepted (.accepted frame :: outputs) = frame :: accepted outputs :=
  rfl

@[simp] theorem accepted_answered (answer : Answer) :
    accepted (.answered answer :: outputs) = accepted outputs :=
  rfl

@[simp] theorem delivered_accepted (frame : List UInt8) :
    delivered (.accepted frame :: outputs) = delivered outputs :=
  rfl

@[simp] theorem delivered_answered (answer : Answer) :
    delivered (.answered answer :: outputs) =
      answered answer ++ delivered outputs := by
  rw [delivered, List.filterMap_cons, answered]
  split <;> simp_all [delivered]

end Output

section Step

variable {s : RxState} {frames packets : List (List UInt8)}

theorem Delivering.of_same {other : RxState}
    (holds : Delivering s frames packets) (speed : mps other = mps s)
    (buf : other.inBuf = s.inBuf) (len : other.inLen = s.inLen)
    (ptr : other.inPtr = s.inPtr)
    (parked : ∀ p, other.inPkt = some p → s.inLen = 0 ∧ Multiple s p) :
    Delivering other frames packets := by
  have hrest : rest other = rest s := by
    rw [rest, buf, len, ptr, rest]
  refine ⟨⟨?_, ?_, ?_⟩, ?_, ?_⟩
  · rw [ptr, len]
    exact holds.bounds.ordered
  · rw [len]
    exact holds.bounds.bounded
  · intro waiting
    obtain ⟨p, hp⟩ := Option.isSome_iff_exists.mp waiting
    rw [len]
    exact (parked p hp).1
  · intro p hp
    rw [Multiple, speed]
    exact (parked p hp).2
  · cases holds.progress with
    | idle empty read => exact .idle (by rw [len, empty]) (by rw [speed, read])
    | busy busy last read whole length =>
        exact .busy (by rwa [len]) last (by rw [speed, read])
          (by rw [hrest, whole]) (by rw [len, length])

theorem rest_moved {ptr : UInt32} {count : Nat}
    (within : count ≤ (rest s).length)
    (moved : ptr.toNat = s.inPtr.toNat + count) :
    rest { s with inPtr := ptr } = (rest s).drop count := by
  rw [rest_length] at within
  have hleft : s.inLen.toNat - ptr.toNat =
      s.inLen.toNat - s.inPtr.toNat - count := by
    omega
  simp only [rest, hleft]
  rw [Memory.drop_bytes _ within, moved]

/-- A packet that advances the pointer takes what there is, up to its size. -/
theorem rest_advanced {ptr : UInt32} {size : Nat}
    (moved : ptr.toNat = s.inPtr.toNat + min size (rest s).length) :
    rest { s with inPtr := ptr } = (rest s).drop size := by
  rw [rest_moved (Nat.min_le_right _ _) moved]
  by_cases all : (rest s).length ≤ size
  · rw [List.drop_of_length_le all, Nat.min_eq_right all, List.drop_length]
  · rw [Nat.min_eq_left (by omega)]

/-- What has been read of a block came in full packets. -/
theorem rest_mod {done : List (List UInt8)} {part block : List UInt8}
    (read : collect (mps s).toNat packets = (done.map rxBlock, part))
    (whole : part ++ rest s = block) (length : s.inLen.toNat = block.length) :
    s.inLen.toNat % (mps s).toNat = (rest s).length % (mps s).toNat := by
  have hopened := collect_open (mps s).toNat packets
  have hsum := congrArg List.length whole
  rw [List.length_append, ← length] at hsum
  rw [read] at hopened
  rw [← hsum, Nat.add_mod, hopened, Nat.zero_add, Nat.mod_mod]

/-- A packet that finds a block takes the next part of it. -/
theorem copyOut_delivering {p : USBPacket}
    (holds : Delivering s frames packets) (busy : s.inLen ≠ 0)
    (multiple : Multiple s p) :
    Delivering (copyOut s p).1 frames
      (packets ++ answered (copyOut s p).2) := by
  have hordered : s.inPtr.toNat ≤ s.inLen.toNat := holds.bounds.ordered
  obtain ⟨hanswer, hover, hmore⟩ := copyOut_spec hordered multiple.1
  cases holds.progress with
  | idle empty read => exact absurd empty busy
  | @busy done frame part _ last read whole length =>
      have hshort := short_take_iff (rest s) multiple.1 multiple.2
      rw [← rest_mod read whole length] at hshort
      have hread := collect_concat (mps s).toNat packets
        ((rest s).take p.size)
      rw [read, collectPacket] at hread
      rw [hanswer]
      simp only [answered, if_true]
      by_cases finished : (rest s).length ≤ p.size ∧
          (s.inLen.toNat % (mps s).toNat ≠ 0 ∨ rest s = [])
      · -- The short packet that ends the transfer.
        rw [if_pos (hshort.mpr finished), List.take_of_length_le finished.1, whole]
          at hread
        rw [hover finished, List.take_of_length_le finished.1]
        refine ⟨⟨UInt32.le_refl _, Nat.zero_le _, fun _ => rfl⟩, ?_, ?_⟩
        · exact holds.multiple
        · refine .idle rfl (hread.trans ?_)
          rw [last, List.map_append]
          rfl
      · -- A full packet.
        obtain ⟨ptr, hstate, hptr⟩ := hmore finished
        rw [if_neg (mt hshort.mp finished)] at hread
        rw [hstate]
        have hleft := rest_advanced hptr
        have hlength := rest_length s
        refine ⟨⟨?_, holds.bounds.bounded, holds.bounds.parked⟩,
          holds.multiple, ?_⟩
        · rw [UInt32.le_iff_toNat_le]
          simp only
          omega
        · refine .busy busy last hread ?_ length
          rw [hleft, List.append_assoc, List.take_append_drop, whole]

/-- Every bulk-IN packet is parked, refused, or takes the next part. -/
theorem bulkIn_delivering {p : USBPacket}
    (holds : Delivering s frames packets) (multiple : Multiple s p) :
    Delivering (bulkIn s p).1 frames (packets ++ answered (bulkIn s p).2) := by
  have hordered : ¬ s.inPtr > s.inLen :=
    UInt32.not_lt.mpr holds.bounds.ordered
  unfold bulkIn
  simp only [if_neg hordered]
  by_cases empty : s.inLen = 0
  · rw [if_pos empty]
    by_cases parked : s.inPkt.isSome = true
    · rw [if_pos parked]
      simpa [answered] using holds
    · rw [if_neg parked]
      simp only [answered, reduceCtorEq, if_false, List.append_nil]
      refine holds.of_same rfl rfl rfl rfl fun other waits => ?_
      rw [Option.some.injEq] at waits
      exact ⟨empty, waits ▸ multiple⟩
  · rw [if_neg empty]
    exact copyOut_delivering holds empty multiple

/-- A frame is refused, or it meets an empty buffer and is stored there. -/
theorem receive_cases (s : RxState) (frame : List UInt8) :
    (∃ result : Int, (result = 0 → s.inLen ≠ 0) ∧ result ≠ frame.length ∧
        receive s frame = (s, result, none)) ∨
      s.inLen = 0 ∧ 14 ≤ frame.length ∧ frame.length ≤ 1514 ∧
        ((s.inPkt = none ∧
            receive s frame =
              (storeFrame s frame, (frame.length : Int), none)) ∨
          ∃ p, s.inPkt = some p ∧ receive s frame =
            ((bulkIn { storeFrame s frame with inPkt := none } p).1,
              (frame.length : Int),
              some (bulkIn { storeFrame s frame with inPkt := none } p).2)) := by
  have hmin : SMSC_MIN_FRAME.toNat = 14 := rfl
  have hmax : SMSC_MAX_FRAME.toNat = 1514 := rfl
  unfold receive
  rw [hmin, hmax]
  by_cases disabled : s.config = false ∨
      s.reg (SMSC_MAC_CR / 4) &&& MAC_CR_RXEN = 0
  · rw [if_pos disabled]
    exact Or.inl ⟨-1, by omega, by omega, rfl⟩
  rw [if_neg disabled]
  by_cases size : frame.length < 14 ∨ 1514 < frame.length
  · rw [if_pos size]
    exact Or.inl ⟨-1, by omega, by omega, rfl⟩
  rw [if_neg size]
  by_cases filtered : filterAccept s frame = false
  · rw [if_pos filtered]
    exact Or.inl ⟨-1, by omega, by omega, rfl⟩
  rw [if_neg filtered]
  by_cases held : s.inLen ≠ 0 ∨
      (rxBlockLength frame.length).toNat > SMSC_BUF_SIZE
  · rw [if_pos held]
    have hblock : (rxBlockLength frame.length).toNat ≤ SMSC_BUF_SIZE := by
      rw [rxBlockLength_toNat (by omega), SMSC_BUF_SIZE]
      omega
    have hheld := held.resolve_right (Nat.not_lt.mpr hblock)
    exact Or.inl ⟨0, fun _ => hheld, by omega, rfl⟩
  rw [if_neg held]
  rw [not_or, not_not] at held
  refine Or.inr ⟨held.1, by omega, by omega, ?_⟩
  cases parked : s.inPkt with
  | none => exact Or.inl ⟨rfl, by simp only [storeFrame, parked]⟩
  | some p => exact Or.inr ⟨p, rfl, by simp only [storeFrame, parked]⟩

/-- A frame that is stored begins a new block. -/
theorem storeFrame_delivering {frame : List UInt8}
    (holds : Delivering s frames packets) (empty : s.inLen = 0)
    (short : frame.length ≤ 1514) :
    Delivering { storeFrame s frame with inPkt := none } (frames ++ [frame])
      packets := by
  obtain ⟨hlen, hrest⟩ := @storeFrame_spec s frame short
  have hlength := rxBlock_length frame
  have hread : collect (mps s).toNat packets = (frames.map rxBlock, []) := by
    cases holds.progress with
    | idle _ read => exact read
    | busy busy => exact absurd empty busy
  refine ⟨⟨?_, ?_, ?_⟩, ?_, ?_⟩
  · rw [UInt32.le_iff_toNat_le]
    exact Nat.zero_le _
  · simp only [hlen, SMSC_BUF_SIZE]
    omega
  · simp
  · simp
  · refine .busy ?_ rfl hread hrest hlen
    rw [ne_eq, ← UInt32.toNat_inj]
    simp only [hlen]
    exact fun none => by rw [UInt32.toNat_zero] at none; omega

/-- Only the fields that reception changes are changed. -/
theorem highSpeed_bulkIn (s : RxState) (p : USBPacket) :
    (bulkIn s p).1.highSpeed = s.highSpeed := by
  have hcopy (other : RxState) :
      (copyOut other p).1.highSpeed = other.highSpeed := by
    simp only [copyOut]
    split <;> split <;> rfl
  unfold bulkIn
  simp only
  split
  · split
    · split <;> rfl
    · exact hcopy (resetIn s)
  · split
    · split <;> rfl
    · exact hcopy s

theorem mps_bulkIn (s : RxState) (p : USBPacket) :
    mps (bulkIn s p).1 = mps s := by
  rw [mps, highSpeed_bulkIn, mps]

theorem mps_receive (s : RxState) (frame : List UInt8) :
    mps (receive s frame).1 = mps s := by
  obtain ⟨_, -, -, hrefused⟩ | ⟨-, -, -, ⟨-, hstored⟩ | ⟨p, -, hpassed⟩⟩ :=
    receive_cases s frame
  · rw [hrefused]
  · rw [hstored]
    rfl
  · rw [hpassed]
    exact mps_bulkIn _ p

/-- The packets among the events are ones that may be submitted. -/
def Submitted (s : RxState) : RxEvent → Prop
  | .bulkIn p => Multiple s p
  | _ => True

theorem mps_rxStep (s : RxState) (event : RxEvent) :
    mps (rxStep s event).1 = mps s := by
  cases event with
  | receive frame => exact mps_receive s frame
  | bulkIn p =>
      simp only [rxStep, handleDataIn_eq]
      exact mps_bulkIn s p
  | cancel p =>
      simp only [rxStep, cancelPacket]
      split <;> rfl

/-- What one event accepts and delivers. -/
theorem rxStep_delivering (holds : Delivering s frames packets)
    {event : RxEvent} (submitted : Submitted s event) :
    Delivering (rxStep s event).1 (frames ++ accepted (rxStep s event).2)
      (packets ++ delivered (rxStep s event).2) := by
  cases event with
  | receive frame =>
      obtain ⟨result, -, hresult, hrefused⟩ |
        ⟨empty, -, short, ⟨hfree, hstored⟩ | ⟨p, hparked, hpassed⟩⟩ :=
        receive_cases s frame
      · simpa [rxStep, hrefused, hresult] using holds
      · have hnext := storeFrame_delivering holds empty short
        have hsame : ({ storeFrame s frame with inPkt := none } : RxState) =
            storeFrame s frame := by
          simp [storeFrame, hfree]
        rw [hsame] at hnext
        simpa [rxStep, hstored] using hnext
      · have hnext := bulkIn_delivering
          (storeFrame_delivering holds empty short) (holds.multiple p hparked)
        simpa [rxStep, hpassed] using hnext
  | bulkIn p =>
      have hbulk := bulkIn_delivering holds submitted
      have hnext : Delivering { (bulkIn s p).1 with flushRx := false } frames
          (packets ++ answered (bulkIn s p).2) :=
        hbulk.of_same rfl rfl rfl rfl fun other parked =>
          ⟨hbulk.bounds.parked (Option.isSome_iff_exists.mpr ⟨other, parked⟩),
            hbulk.multiple other parked⟩
      by_cases waits : (bulkIn s p).2.status = .async
      · rw [answered, if_neg (by rw [waits]; decide)] at hnext
        simpa [rxStep, handleDataIn_eq, waits] using hnext
      · simpa [rxStep, handleDataIn_eq, waits] using hnext
  | cancel p =>
      simp only [rxStep, accepted_nil, delivered_nil, List.append_nil,
        cancelPacket]
      by_cases parked : s.inPkt = some p
      · rw [if_pos parked]
        refine holds.of_same rfl rfl rfl rfl fun other waits => ?_
        exact absurd waits.symm (Option.some_ne_none _)
      · rw [if_neg parked]
        exact holds

end Step

theorem accepted_append (first second : List RxOutput) :
    accepted (first ++ second) = accepted first ++ accepted second :=
  List.filterMap_append

theorem delivered_append (first second : List RxOutput) :
    delivered (first ++ second) = delivered first ++ delivered second :=
  List.filterMap_append

/-- The invariant holds behind every run. -/
theorem rxRun_delivering {events : List RxEvent} {s : RxState}
    {frames packets : List (List UInt8)} (holds : Delivering s frames packets)
    (submitted : ∀ event ∈ events, Submitted s event) :
    Delivering (rxRun s events).1 (frames ++ accepted (rxRun s events).2)
      (packets ++ delivered (rxRun s events).2) := by
  induction events generalizing s frames packets with
  | nil => simpa [rxRun] using holds
  | cons event events ih =>
      have hstep := rxStep_delivering holds
        (submitted event List.mem_cons_self)
      have hspeed := mps_rxStep s event
      have hlater := ih hstep fun other member => by
        have hother := submitted other (List.mem_cons_of_mem _ member)
        cases other with
        | bulkIn p =>
            rw [Submitted, Multiple, hspeed]
            exact hother
        | receive frame => exact hother
        | cancel p => exact hother
      simp only [rxRun, accepted_append, delivered_append]
      rwa [← List.append_assoc, ← List.append_assoc]

/-- Only frames of a plausible size are accepted. -/
theorem accepted_length {s : RxState} {event : RxEvent} {frame : List UInt8}
    (member : frame ∈ accepted (rxStep s event).2) : frame.length ≤ 1514 := by
  cases event with
  | receive other =>
      obtain ⟨result, -, hresult, hrefused⟩ |
        ⟨-, -, short, ⟨-, hstored⟩ | ⟨p, -, hpassed⟩⟩ := receive_cases s other
      · simp [rxStep, hrefused, hresult] at member
      · simp only [rxStep, hstored, if_true, Option.toList_none, List.map_nil,
          List.append_nil, accepted_accepted, accepted_nil,
          List.mem_singleton] at member
        exact member ▸ short
      · simp only [rxStep, hpassed, if_true, Option.toList_some, List.map_cons,
          List.map_nil, List.singleton_append, accepted_accepted,
          accepted_answered, accepted_nil, List.mem_singleton] at member
        exact member ▸ short
  | bulkIn p =>
      simp only [rxStep, handleDataIn_eq] at member
      split at member <;> simp at member
  | cancel p => simp [rxStep] at member

theorem accepted_run_length {s : RxState} {events : List RxEvent}
    {frame : List UInt8} (member : frame ∈ accepted (rxRun s events).2) :
    frame.length ≤ 1514 := by
  induction events generalizing s with
  | nil => simp [rxRun] at member
  | cons event events ih =>
      simp only [rxRun, accepted_append, List.mem_append] at member
      rcases member with now | later
      · exact accepted_length now
      · exact ih later

/-- The device as a reset leaves it: nothing is held, and no packet waits. -/
structure Idle (s : RxState) : Prop where
  inLen : s.inLen = 0
  inPtr : s.inPtr = 0
  inPkt : s.inPkt = none

theorem Idle.delivering {s : RxState} (idle : Idle s) :
    Delivering s [] [] := by
  refine ⟨⟨?_, ?_, ?_⟩, ?_, .idle idle.inLen rfl⟩
  · rw [idle.inLen, idle.inPtr]
    exact UInt32.le_refl 0
  · rw [idle.inLen]
    exact Nat.zero_le _
  · simp [idle.inPkt]
  · simp [idle.inPkt]

end RiscosBuilder.Usb
