import Mathlib.Data.Int.ModEq
import Mathlib.Tactic.Ring

/-!
# The USB frame counter

`dwc2_frame_boundary`, as `files/qemu-riscos-raspi.patch` leaves it, with the
timer that calls it.  Times are in nanoseconds, and `int64_t` is `Int`.  What
the counter gains by a call is measured against `sof_time`, which a call moves
on by one frame only.
-/

namespace RiscosBuilder.Board

/-- The part of `DWC2State` that counts frames. -/
structure DWC2State where
  sofTime : Int
  usbFrameTime : Int
  frameNumber : Nat
  hfnum : Nat
  deriving DecidableEq, Repr

/-- `dwc2_sof`. -/
def sof (s : DWC2State) : DWC2State :=
  { s with sofTime := s.sofTime + s.usbFrameTime }

/-- What the timer is set to. -/
def eofTime (s : DWC2State) : Int :=
  s.sofTime + s.usbFrameTime

/-- `frcnt`, which is cast to `uint16_t`. -/
def frcnt (s : DWC2State) (now : Int) : Nat :=
  ((now - s.sofTime).tdiv s.usbFrameTime % 2 ^ 16).toNat

section

variable (HFNUM_MAX_FRNUM : Nat)

/-- `dwc2_frame_boundary`. -/
def frameBoundary (s : DWC2State) (now : Int) : DWC2State :=
  let frameNumber := (s.frameNumber + frcnt s now) &&& 0xffff
  let hfnum := frameNumber &&& HFNUM_MAX_FRNUM
  sof { s with frameNumber, hfnum }

/-- The bus is started. -/
def started (start frameTime : Int) (frameNumber : Nat) : DWC2State :=
  ⟨start, frameTime, frameNumber, frameNumber &&& HFNUM_MAX_FRNUM⟩

/-- The clock runs on, and no call comes before the timer is due. -/
def Fired (s : DWC2State) : Int → List Int → Prop
  | _, [] => True
  | clock, now :: rest =>
      clock ≤ now ∧ eofTime s ≤ now ∧
        Fired (frameBoundary HFNUM_MAX_FRNUM s now) now rest

/-- The state behind the calls. -/
def called (s : DWC2State) (calls : List Int) : DWC2State :=
  calls.foldl (frameBoundary HFNUM_MAX_FRNUM) s

/-- The counter has gone on by the frames that have passed. -/
structure Counted (s last : DWC2State) (elapsed : Int) : Prop where
  frames : last.frameNumber ≡ s.frameNumber + elapsed [ZMOD 2 ^ 16]
  hfnum : last.hfnum = last.frameNumber &&& HFNUM_MAX_FRNUM

end

/-- By how many whole frames the calls come late, taken together. -/
def late (due frameTime : Int) : List Int → Int
  | [] => 0
  | now :: rest => (now - due) / frameTime + late (due + frameTime) frameTime rest

/-! ## One call -/

section

variable {HFNUM_MAX_FRNUM : Nat} {s : DWC2State} {now : Int}

/-- A call counts the frame that is over, and those that it comes late. -/
theorem frameNumber_frameBoundary (positive : 0 < s.usbFrameTime)
    (due : eofTime s ≤ now) :
    ((frameBoundary HFNUM_MAX_FRNUM s now).frameNumber : Int) ≡
      s.frameNumber + (1 + (now - eofTime s) / s.usbFrameTime) [ZMOD 2 ^ 16] := by
  have hsince : 0 ≤ now - s.sofTime := by
    unfold eofTime at due
    omega
  have hquotient : (now - s.sofTime).tdiv s.usbFrameTime =
      1 + (now - eofTime s) / s.usbFrameTime := by
    have hsplit : now - s.sofTime =
        now - eofTime s + 1 * s.usbFrameTime := by
      unfold eofTime
      omega
    rw [Int.tdiv_eq_ediv_of_nonneg hsince, hsplit,
      Int.add_mul_ediv_right _ _ (Int.ne_of_gt positive), Int.add_comm]
  have hfrcnt : (frcnt s now : Int) ≡ 1 + (now - eofTime s) / s.usbFrameTime
      [ZMOD 2 ^ 16] := by
    rw [frcnt, Int.toNat_of_nonneg (Int.emod_nonneg _ (by decide)), hquotient]
    exact Int.mod_modEq _ _
  have hmask : (frameBoundary HFNUM_MAX_FRNUM s now).frameNumber =
      (s.frameNumber + frcnt s now) % 2 ^ 16 :=
    Nat.and_two_pow_sub_one_eq_mod _ 16
  rw [hmask, Int.natCast_emod, Int.natCast_add]
  exact (Int.mod_modEq _ _).trans (hfrcnt.add_left _)

end

/-! ## A run of calls -/

section

variable {HFNUM_MAX_FRNUM : Nat} {s : DWC2State} {clock : Int} {calls : List Int}

theorem called_usbFrameTime :
    (called HFNUM_MAX_FRNUM s calls).usbFrameTime = s.usbFrameTime := by
  induction calls generalizing s with
  | nil => rfl
  | cons now rest ih => exact ih

theorem called_sofTime : (called HFNUM_MAX_FRNUM s calls).sofTime =
    s.sofTime + calls.length * s.usbFrameTime := by
  induction calls generalizing s with
  | nil => simp [called]
  | cons now rest ih =>
      refine ih.trans ?_
      simp only [frameBoundary, sof, List.length_cons, Int.natCast_succ]
      ring

theorem called_hfnum (masked : s.hfnum = s.frameNumber &&& HFNUM_MAX_FRNUM) :
    (called HFNUM_MAX_FRNUM s calls).hfnum =
      (called HFNUM_MAX_FRNUM s calls).frameNumber &&& HFNUM_MAX_FRNUM := by
  induction calls generalizing s with
  | nil => exact masked
  | cons now rest ih => exact ih rfl

/-- The frames never begin later than the clock says. -/
theorem Fired.sofTime_le (fired : Fired HFNUM_MAX_FRNUM s clock calls)
    (begun : s.sofTime ≤ clock) :
    (called HFNUM_MAX_FRNUM s calls).sofTime ≤ calls.getLastD clock := by
  induction calls generalizing s clock with
  | nil => exact begun
  | cons now rest ih =>
      obtain ⟨hclock, hdue, hrest⟩ := fired
      rw [List.getLastD_cons]
      exact ih hrest hdue

/-- Each call counts one frame, and what they are late comes on top. -/
theorem Fired.frameNumber (fired : Fired HFNUM_MAX_FRNUM s clock calls)
    (positive : 0 < s.usbFrameTime) :
    ((called HFNUM_MAX_FRNUM s calls).frameNumber : Int) ≡ s.frameNumber +
      (calls.length + late (eofTime s) s.usbFrameTime calls) [ZMOD 2 ^ 16] := by
  induction calls generalizing s clock with
  | nil => simp [called, late]
  | cons now rest ih =>
      obtain ⟨hclock, hdue, hrest⟩ := fired
      have hfirst := @frameNumber_frameBoundary HFNUM_MAX_FRNUM s now positive hdue
      have hlater := ih hrest positive
      refine hlater.trans ((hfirst.add_right _).trans ?_)
      have hsum : (s.frameNumber : Int) + (1 + (now - eofTime s) / s.usbFrameTime) +
          (rest.length + late (eofTime s + s.usbFrameTime) s.usbFrameTime rest) =
            s.frameNumber + ((now :: rest).length +
              late (eofTime s) s.usbFrameTime (now :: rest)) := by
        simp only [late, List.length_cons, Int.natCast_succ]
        ring
      exact congrArg (· % 2 ^ 16) hsum

end

/--
Once the handler has caught up, the counter has gone on by the frames that have
passed just if the calls were late, all in all, by a multiple of 2^16 frames.
-/
theorem frames_counted_iff {HFNUM_MAX_FRNUM : Nat} {start frameTime : Int}
    {frameNumber : Nat} {calls : List Int} {now : Int} (positive : 0 < frameTime)
    (fired : Fired HFNUM_MAX_FRNUM
      (started HFNUM_MAX_FRNUM start frameTime frameNumber) start calls)
    (since : calls.getLastD start ≤ now)
    (caught : now < eofTime (called HFNUM_MAX_FRNUM
      (started HFNUM_MAX_FRNUM start frameTime frameNumber) calls)) :
    Counted HFNUM_MAX_FRNUM (started HFNUM_MAX_FRNUM start frameTime frameNumber)
        (called HFNUM_MAX_FRNUM
          (started HFNUM_MAX_FRNUM start frameTime frameNumber) calls)
        ((now - start) / frameTime) ↔
      (2 ^ 16 : Int) ∣ late (start + frameTime) frameTime calls := by
  have hframes := fired.frameNumber positive
  have hbegun := (fired.sofTime_le (le_refl start)).trans since
  have hsofTime := @called_sofTime HFNUM_MAX_FRNUM
    (started HFNUM_MAX_FRNUM start frameTime frameNumber) calls
  have helapsed : (now - start) / frameTime = calls.length := by
    simp only [started] at hsofTime hbegun caught
    simp only [eofTime, called_usbFrameTime] at caught
    rw [hsofTime] at hbegun caught
    have hsplit : now - start =
        now - (start + calls.length * frameTime) + calls.length * frameTime := by
      ring
    rw [hsplit, Int.add_mul_ediv_right _ _ (Int.ne_of_gt positive),
      Int.ediv_eq_zero_of_lt (by omega) (by omega), Int.zero_add]
  have hdiff : (frameNumber + (calls.length +
      late (start + frameTime) frameTime calls) : Int) -
        (frameNumber + calls.length) = late (start + frameTime) frameTime calls := by
    ring
  rw [helapsed, ← hdiff, ← Int.modEq_iff_dvd]
  constructor
  · intro counted
    exact counted.frames.symm.trans hframes
  · intro same
    exact ⟨hframes.trans same.symm, called_hfnum rfl⟩

/-- Two calls at once, of which the first is a frame late: three frames for two. -/
theorem frames_counted_not_late :
    let s := started 0x3fff 0 1000000 0
    let last := called 0x3fff s [2000000, 2000000]
    Fired 0x3fff s 0 [2000000, 2000000] ∧ 2000000 < eofTime last ∧
      (2000000 - 0 : Int) / 1000000 = 2 ∧ last.frameNumber = 3 ∧
      ¬ Counted 0x3fff s last ((2000000 - 0) / 1000000) := by
  refine ⟨⟨by decide, by decide, by decide, by decide, trivial⟩, by decide,
    by decide, by decide, ?_⟩
  rintro ⟨frames, -⟩
  exact absurd frames (by decide)

/-- One call that comes a little late. -/
theorem frames_counted_iff_prompt :
    Counted 0x3fff (started 0x3fff 0 1000000 0)
      (called 0x3fff (started 0x3fff 0 1000000 0) [1000007])
      ((1500000 - 0) / 1000000) :=
  (@frames_counted_iff 0x3fff 0 1000000 0 [1000007] 1500000 (by decide)
    ⟨by decide, by decide, trivial⟩ (by decide) (by decide)).mpr (by decide)

end RiscosBuilder.Board
