import RiscosBuilder.Library.Loop
import RiscosBuilder.Library.Memory
import RiscosBuilder.Library.Word

/-!
# The DMA transfer loop

The loop over `xlen` in `bcm2835_dma_update`, as `files/qemu-riscos-raspi.patch`
leaves it: four bytes a turn, and what is left over in the last one.
-/

namespace RiscosBuilder.Board

open RiscosBuilder.Library

/-- The bits of `ti` that the loop looks at. -/
structure TransferInfo where
  /-- `BCM2708_DMA_S_INC`. -/
  sInc : Bool
  /-- `BCM2708_DMA_S_IGNORE`. -/
  sIgnore : Bool
  /-- `BCM2708_DMA_D_INC`. -/
  dInc : Bool
  /-- `BCM2708_DMA_D_IGNORE`. -/
  dIgnore : Bool
  deriving DecidableEq, Repr

/-- What the loop works on: the channel's addresses, `xlen`, and the memory. -/
structure Channel where
  sourceAd : UInt32
  destAd : UInt32
  xlen : UInt32
  memory : Memory

/-- `chunk`. -/
def chunk (xlen : UInt32) : UInt32 :=
  if xlen < 4 then xlen else 4

/-- One turn of the loop; `none` when nothing is left. -/
def moveTurn (ti : TransferInfo) (ch : Channel) : Option Channel :=
  if ch.xlen = 0 then none
  else
    let chunk := chunk ch.xlen
    let buf : List UInt8 := List.replicate 4 0
    let buf :=
      if ti.sIgnore then buf
      else ch.memory.bytes ch.sourceAd.toNat chunk.toNat ++ buf.drop chunk.toNat
    let sourceAd := if ti.sInc then ch.sourceAd + chunk else ch.sourceAd
    let memory :=
      if ti.dIgnore then ch.memory
      else ch.memory.store ch.destAd.toNat (buf.take chunk.toNat)
    let destAd := if ti.dInc then ch.destAd + chunk else ch.destAd
    some { sourceAd, destAd, memory, xlen := ch.xlen - chunk }

/-! ## One turn -/

theorem toNat_chunk (xlen : UInt32) : (chunk xlen).toNat = min xlen.toNat 4 := by
  unfold chunk
  split
  · next short =>
      have hlt := UInt32.lt_iff_toNat_lt.mp short
      exact (Nat.min_eq_left (Nat.le_of_lt hlt)).symm
  · next long =>
      have hle := UInt32.le_iff_toNat_le.mp (UInt32.not_lt.mp long)
      exact (Nat.min_eq_right hle).symm

/-- What is left never goes below nothing. -/
theorem toNat_sub_chunk (xlen : UInt32) :
    (xlen - chunk xlen).toNat = xlen.toNat - 4 := by
  have hchunk := toNat_chunk xlen
  rw [Word.toNat_sub_of_le (by omega), hchunk]
  omega

/-- The bytes that a transfer of `count` bytes writes. -/
def payload (ti : TransferInfo) (ch : Channel) (count : Nat) : List UInt8 :=
  if ti.sIgnore then List.replicate count 0
  else ch.memory.bytes ch.sourceAd.toNat count

@[simp] theorem payload_length (ti : TransferInfo) (ch : Channel) (count : Nat) :
    (payload ti ch count).length = count := by
  unfold payload
  split <;> simp

/-- The channel behind a turn. -/
def turned (ti : TransferInfo) (ch : Channel) : Channel where
  sourceAd := if ti.sInc then ch.sourceAd + chunk ch.xlen else ch.sourceAd
  destAd := if ti.dInc then ch.destAd + chunk ch.xlen else ch.destAd
  xlen := ch.xlen - chunk ch.xlen
  memory :=
    if ti.dIgnore then ch.memory
    else ch.memory.store ch.destAd.toNat (payload ti ch (chunk ch.xlen).toNat)

theorem moveTurn_eq (ti : TransferInfo) (ch : Channel) :
    moveTurn ti ch = if ch.xlen = 0 then none else some (turned ti ch) := by
  have hchunk : (chunk ch.xlen).toNat ≤ 4 := by
    rw [toNat_chunk]
    exact Nat.min_le_right _ _
  have hbuf : (if ti.sIgnore then List.replicate 4 0
      else ch.memory.bytes ch.sourceAd.toNat (chunk ch.xlen).toNat ++
        (List.replicate 4 0).drop (chunk ch.xlen).toNat).take
          (chunk ch.xlen).toNat = payload ti ch (chunk ch.xlen).toNat := by
    unfold payload
    split
    · rw [List.take_replicate, Nat.min_eq_left hchunk]
    · rw [List.take_append_of_le_length (by simp), List.take_of_length_le (by simp)]
  unfold moveTurn turned
  dsimp only
  rw [hbuf]

theorem moveTurn_none {ti : TransferInfo} {ch : Channel} :
    moveTurn ti ch = none ↔ ch.xlen = 0 := by
  simp [moveTurn_eq]

/-- An address that is moved on by the turn, and by what is left behind it. -/
theorem advance (inc : Bool) (addr xlen : UInt32) :
    (if inc then (if inc then addr + chunk xlen else addr) + (xlen - chunk xlen)
      else (if inc then addr + chunk xlen else addr)) =
        if inc then addr + xlen else addr := by
  cases inc with
  | false => rfl
  | true =>
      simp only [if_true]
      rw [UInt32.add_assoc, UInt32.add_comm (chunk xlen), UInt32.sub_add_cancel]

/-! ## The loop -/

/-- How many turns the loop takes. -/
def steps (ch : Channel) : Nat :=
  (ch.xlen.toNat + 3) / 4

theorem steps_eq_zero {ch : Channel} : steps ch = 0 ↔ ch.xlen = 0 := by
  have hzero : ch.xlen = 0 ↔ ch.xlen.toNat = 0 :=
    (UInt32.toNat_inj (a := ch.xlen) (b := 0)).symm
  rw [hzero]
  unfold steps
  omega

theorem steps_turned {ti : TransferInfo} {ch : Channel} {n : Nat}
    (more : steps ch = n + 1) : steps (turned ti ch) = n := by
  have hxlen : (turned ti ch).xlen.toNat = ch.xlen.toNat - 4 :=
    toNat_sub_chunk ch.xlen
  unfold steps at more ⊢
  omega

theorem moveTurn_of_more {ti : TransferInfo} {ch : Channel} {n : Nat}
    (more : steps ch = n + 1) : moveTurn ti ch = some (turned ti ch) := by
  rw [moveTurn_eq, if_neg]
  intro done
  rw [steps_eq_zero.mpr done] at more
  exact absurd more.symm (Nat.succ_ne_zero n)

/-- Each turn takes off four bytes, or all that is left. -/
theorem turns_xlen (ti : TransferInfo) (ch : Channel) (count : Nat) :
    (Loop.turns (moveTurn ti) count ch).xlen.toNat =
      ch.xlen.toNat - 4 * count := by
  induction count generalizing ch with
  | zero => rfl
  | succ count ih =>
      by_cases done : ch.xlen = 0
      · rw [Loop.turns_of_done _ (moveTurn_none.mpr done), done]
        exact (Nat.zero_sub _).symm
      · have hturn : moveTurn ti ch = some (turned ti ch) := by
          rw [moveTurn_eq, if_neg done]
        have hxlen : (turned ti ch).xlen.toNat = ch.xlen.toNat - 4 :=
          toNat_sub_chunk ch.xlen
        simp only [Loop.turns, hturn]
        rw [ih, hxlen]
        omega

/-- Fewer turns are not enough. -/
theorem run_early {ti : TransferInfo} {ch : Channel} {fuel : Nat}
    (early : fuel < steps ch) : Loop.run (moveTurn ti) fuel ch = none := by
  induction fuel generalizing ch with
  | zero =>
      obtain ⟨n, hn⟩ := Nat.exists_eq_add_of_lt early
      have hturn := @moveTurn_of_more ti ch n (by omega)
      simp only [Loop.run, hturn]
  | succ fuel ih =>
      obtain ⟨n, hn⟩ := Nat.exists_eq_add_of_lt early
      have hmore : steps ch = fuel + 1 + n + 1 := hn
      rw [Loop.run_of_turn (moveTurn_of_more hmore)]
      apply ih
      rw [steps_turned hmore]
      omega

/-- How a channel is left that has moved all it was to move. -/
structure Moved (ti : TransferInfo) (ch last : Channel) : Prop where
  xlen : last.xlen = 0
  sourceAd : last.sourceAd =
    if ti.sInc then ch.sourceAd + ch.xlen else ch.sourceAd
  destAd : last.destAd = if ti.dInc then ch.destAd + ch.xlen else ch.destAd

theorem run_moved (ti : TransferInfo) (ch : Channel) :
    ∃ last, Loop.run (moveTurn ti) (steps ch) ch = some last ∧
      Moved ti ch last := by
  generalize hsteps : steps ch = n
  induction n generalizing ch with
  | zero =>
      have hdone := steps_eq_zero.mp hsteps
      refine ⟨ch, Loop.run_of_done 0 (moveTurn_none.mpr hdone), hdone, ?_, ?_⟩
      · rw [hdone, UInt32.add_zero, ite_self]
      · rw [hdone, UInt32.add_zero, ite_self]
  | succ n ih =>
      obtain ⟨last, hrun, hmoved⟩ := ih (turned ti ch) (steps_turned hsteps)
      refine ⟨last, ?_, hmoved.xlen, ?_, ?_⟩
      · rw [Loop.run_of_turn (moveTurn_of_more hsteps)]
        exact hrun
      · rw [hmoved.sourceAd]
        exact advance ti.sInc ch.sourceAd ch.xlen
      · rw [hmoved.destAd]
        exact advance ti.dInc ch.destAd ch.xlen

/-! ## The memory -/

/-- The two ranges end within the address space and have no byte in common. -/
structure Apart (ch : Channel) : Prop where
  source : ch.sourceAd.toNat + ch.xlen.toNat ≤ 2 ^ 32
  dest : ch.destAd.toNat + ch.xlen.toNat ≤ 2 ^ 32
  disjoint : ch.sourceAd.toNat + ch.xlen.toNat ≤ ch.destAd.toNat ∨
    ch.destAd.toNat + ch.xlen.toNat ≤ ch.sourceAd.toNat

/-- The ranges that a turn leaves over. -/
theorem Apart.turned {ti : TransferInfo} {ch : Channel} (apart : Apart ch)
    (sInc : ti.sInc = true) (dInc : ti.dInc = true) : Apart (turned ti ch) := by
  obtain ⟨hsource, hdest, hdisjoint⟩ := apart
  have hxlen := toNat_sub_chunk ch.xlen
  have hchunk := toNat_chunk ch.xlen
  have hs : (ch.sourceAd + chunk ch.xlen).toNat =
      (ch.sourceAd.toNat + min ch.xlen.toNat 4) % 2 ^ 32 := by
    rw [UInt32.toNat_add, hchunk]
  have hd : (ch.destAd + chunk ch.xlen).toNat =
      (ch.destAd.toNat + min ch.xlen.toNat 4) % 2 ^ 32 := by
    rw [UInt32.toNat_add, hchunk]
  constructor
  all_goals
    simp only [Board.turned, sInc, dInc, if_true]
    rw [hxlen]
  · rw [hs]
    omega
  · rw [hd]
    omega
  · rw [hs, hd]
    omega

/-- What is written first and what is written later make up the whole. -/
theorem payload_turned {ti : TransferInfo} {ch : Channel} (apart : Apart ch)
    (sInc : ti.sInc = true) (long : 4 < ch.xlen.toNat) :
    payload ti ch ch.xlen.toNat =
      payload ti ch 4 ++ payload ti (turned ti ch) (ch.xlen.toNat - 4) := by
  obtain ⟨hsource, hdest, hdisjoint⟩ := apart
  have hchunk : (chunk ch.xlen).toNat = 4 := by
    rw [toNat_chunk]
    omega
  obtain ⟨rest, hrest⟩ := Nat.exists_eq_add_of_le (Nat.le_of_lt long)
  rw [hrest, Nat.add_sub_cancel_left]
  unfold payload
  split
  · exact List.replicate_add 4 rest 0
  · next read =>
      have hnext : (turned ti ch).sourceAd.toNat = ch.sourceAd.toNat + 4 := by
        simp only [turned, sInc, if_true]
        rw [Word.toNat_add_of_lt (by omega), hchunk]
      rw [Memory.bytes_append, hnext]
      congr 1
      unfold turned
      dsimp only
      split
      · rfl
      · symm
        apply Memory.bytes_store_apart
        rw [payload_length, hchunk]
        omega

theorem memory_turned {ti : TransferInfo} {ch : Channel} (apart : Apart ch)
    (sInc : ti.sInc = true) (dInc : ti.dInc = true)
    (written : ti.dIgnore = false) :
    (turned ti ch).memory.store (turned ti ch).destAd.toNat
        (payload ti (turned ti ch) (turned ti ch).xlen.toNat) =
      ch.memory.store ch.destAd.toNat (payload ti ch ch.xlen.toNat) := by
  have hxlen : (turned ti ch).xlen.toNat = ch.xlen.toNat - 4 :=
    toNat_sub_chunk ch.xlen
  have hmemory : (turned ti ch).memory = ch.memory.store ch.destAd.toNat
      (payload ti ch (chunk ch.xlen).toNat) := by
    simp [turned, written]
  have hchunk := toNat_chunk ch.xlen
  rw [hxlen, hmemory]
  by_cases long : 4 < ch.xlen.toNat
  · have hfour : (chunk ch.xlen).toNat = 4 := by omega
    have hdest : (turned ti ch).destAd.toNat = ch.destAd.toNat + 4 := by
      have hend := apart.dest
      simp only [turned, dInc, if_true]
      rw [Word.toNat_add_of_lt (by omega), hfour]
    have hstored := Memory.store_append ch.memory ch.destAd.toNat
      (payload ti ch 4) (payload ti (turned ti ch) (ch.xlen.toNat - 4))
    rw [payload_length] at hstored
    rw [hfour, hdest, hstored, payload_turned apart sInc long]
  · have hall : (chunk ch.xlen).toNat = ch.xlen.toNat := by omega
    have hrest : payload ti (turned ti ch) (ch.xlen.toNat - 4) = [] := by
      apply List.length_eq_zero_iff.mp
      rw [payload_length]
      omega
    rw [hall, hrest, Memory.store_nil]

theorem run_memory {ti : TransferInfo} {ch last : Channel} (apart : Apart ch)
    (sInc : ti.sInc = true) (dInc : ti.dInc = true)
    (written : ti.dIgnore = false)
    (run : Loop.run (moveTurn ti) (steps ch) ch = some last) :
    last.memory =
      ch.memory.store ch.destAd.toNat (payload ti ch ch.xlen.toNat) := by
  generalize hsteps : steps ch = n at run
  induction n generalizing ch with
  | zero =>
      have hdone := steps_eq_zero.mp hsteps
      rw [Loop.run_of_done 0 (moveTurn_none.mpr hdone), Option.some.injEq] at run
      have hnothing : payload ti ch ch.xlen.toNat = [] := by
        apply List.length_eq_zero_iff.mp
        rw [payload_length, hdone]
        rfl
      rw [hnothing, Memory.store_nil, run]
  | succ n ih =>
      rw [Loop.run_of_turn (moveTurn_of_more hsteps)] at run
      rw [ih (apart.turned sInc dInc) (steps_turned hsteps) run,
        memory_turned apart sInc dInc written]

/-! ## A transfer -/

/--
The loop stops behind `steps` turns and not before, with nothing left and
without a wrap on the way; each address is moved on by the length or stays.
When both are moved on and the ranges are apart, the memory differs by what is
written at the destination: the bytes of the source, or zeros if reads are
ignored.
-/
theorem dma_moves (ti : TransferInfo) (ch : Channel) :
    (∀ count, (Loop.turns (moveTurn ti) count ch).xlen.toNat =
        ch.xlen.toNat - 4 * count) ∧
      (∀ fuel < (ch.xlen.toNat + 3) / 4,
        Loop.run (moveTurn ti) fuel ch = none) ∧
      ∃ last, Loop.run (moveTurn ti) ((ch.xlen.toNat + 3) / 4) ch = some last ∧
        last.xlen = 0 ∧
        last.sourceAd =
          (if ti.sInc then ch.sourceAd + ch.xlen else ch.sourceAd) ∧
        last.destAd = (if ti.dInc then ch.destAd + ch.xlen else ch.destAd) ∧
        (ti.sInc = true → ti.dInc = true → ti.dIgnore = false → Apart ch →
          last.memory = ch.memory.store ch.destAd.toNat
            (if ti.sIgnore then List.replicate ch.xlen.toNat 0
              else ch.memory.bytes ch.sourceAd.toNat ch.xlen.toNat)) := by
  obtain ⟨last, hrun, hmoved⟩ := run_moved ti ch
  refine ⟨turns_xlen ti ch, fun fuel early => run_early early, last, hrun,
    hmoved.xlen, hmoved.sourceAd, hmoved.destAd, ?_⟩
  intro sInc dInc written apart
  exact run_memory apart sInc dInc written hrun

end RiscosBuilder.Board
