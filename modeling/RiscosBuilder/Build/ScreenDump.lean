import RiscosBuilder.Library.Trace
import Mathlib.Data.List.TakeDrop

/-!
# The dump of the console

`_unseen_screen_text` of `build.py` in console-build mode.  All that it keeps is
an offset into the serial log; that QEMU has been launched anew it finds out
from a log that is shorter than the offset.
-/

namespace RiscosBuilder.Build

open RiscosBuilder.Library

/-- What a poll dumps: bytes of the log and where in the log they begin. -/
structure Dump where
  offset : Nat
  data : List UInt8
  deriving DecidableEq, Repr

/-- Where the dump ends, which becomes the saved offset. -/
def Dump.stop (dump : Dump) : Nat :=
  dump.offset + dump.data.length

/--
`_unseen_screen_text`, given its saved offset: `sized` is the log of which it
takes the size, and `log` the one that it reads.
-/
def unseenScreenText (sized log : List UInt8) (pos : Nat) : Dump :=
  let pos := if sized.length < pos then 0 else pos
  ⟨pos, log.drop pos⟩

/--
The serial log, missing after it was removed, and the saved offset.  What has
been dumped since QEMU was launched, and the size of the log at the last poll
since, are kept in order to speak of them.
-/
structure Screen where
  log : Option (List UInt8)
  serialPos : Nat
  dumped : List Dump
  reached : Nat
  deriving DecidableEq, Repr

/--
QEMU writes to its log, QEMU is launched, or the screen is polled; `grown` is
written while the poll is between the size of the log and its bytes.
-/
inductive ScreenEvent where
  | wrote (bytes : List UInt8)
  | launched
  | polled (grown : List UInt8)
  deriving DecidableEq, Repr

namespace Screen

/-- Nothing has been polled yet. -/
def start (log : Option (List UInt8)) : Screen :=
  ⟨log, 0, [], 0⟩

/-- A poll without a log dumps nothing and leaves the offset as it is. -/
def step (s : Screen) : ScreenEvent → Screen
  | .wrote bytes => { s with log := some (s.log.getD [] ++ bytes) }
  | .launched => { s with log := none, dumped := [], reached := 0 }
  | .polled grown =>
      match s.log with
      | none => s
      | some log =>
          let dump := unseenScreenText log (log ++ grown) s.serialPos
          { log := some (log ++ grown)
            serialPos := dump.stop
            dumped := s.dumped ++ [dump]
            reached := (log ++ grown).length }

/-- The steps as a relation. -/
def Next (s : Screen) (event : ScreenEvent) (after : Screen) : Prop :=
  s.step event = after

end Screen

/-- Each dump begins where the one before ends. -/
def Consecutive : Nat → List Dump → Nat → Prop
  | start, [], stop => start = stop
  | start, dump :: dumps, stop =>
      dump.offset = start ∧ Consecutive dump.stop dumps stop

theorem consecutive_concat {start stop : Nat} {dumps : List Dump} {dump : Dump} :
    Consecutive start (dumps ++ [dump]) stop ↔
      Consecutive start dumps dump.offset ∧ dump.stop = stop := by
  induction dumps generalizing start with
  | nil => exact and_congr_left fun _ => eq_comm
  | cons first dumps ih =>
      rw [List.cons_append, Consecutive, Consecutive, ih, and_assoc]

theorem Consecutive.unique {start first second : Nat} {dumps : List Dump}
    (hfirst : Consecutive start dumps first)
    (hsecond : Consecutive start dumps second) : first = second := by
  induction dumps generalizing start with
  | nil => exact hfirst.symm.trans hsecond
  | cons dump dumps ih => exact ih hfirst.2 hsecond.2

namespace Screen

/--
What has been dumped since the launch are the bytes of the log up to where it
ended at the last poll, each once and in order.
-/
structure Complete (s : Screen) : Prop where
  consecutive : Consecutive 0 s.dumped s.reached
  bytes : s.dumped.flatMap Dump.data = (s.log.getD []).take s.reached

/--
The first poll of a log sees fewer bytes than the saved offset says, or nothing
had been read before.
-/
def Noticed (s : Screen) (event : ScreenEvent) : Prop :=
  ∀ grown, event = .polled grown → s.dumped = [] →
    ∀ log, s.log = some log → s.serialPos = 0 ∨ log.length < s.serialPos

/-- Once a log has been polled, the offset is where it ended. -/
def Follows (s : Screen) : Prop :=
  s.dumped ≠ [] → ∃ log, s.log = some log ∧ s.serialPos = s.reached ∧
    s.reached ≤ log.length

theorem unseenScreenText_stop {sized log : List UInt8} (pos : Nat)
    (grows : sized.length ≤ log.length) :
    (unseenScreenText sized log pos).stop = log.length := by
  simp only [unseenScreenText, Dump.stop, List.length_drop]
  split_ifs <;> omega

theorem Follows.step {s : Screen} (follows : s.Follows) (event : ScreenEvent) :
    (s.step event).Follows := by
  cases event with
  | wrote bytes =>
      intro dumped
      obtain ⟨log, hlog, hpos, hreached⟩ := follows dumped
      refine ⟨log ++ bytes, by simp [Screen.step, hlog], hpos, ?_⟩
      exact Nat.le_trans hreached (by simp)
  | launched => exact fun dumped => absurd rfl dumped
  | polled grown =>
      cases hlog : s.log with
      | none => simpa [Screen.step, hlog] using follows
      | some log =>
          simp only [Screen.step, hlog]
          exact fun _ => ⟨_, rfl, unseenScreenText_stop _ (by simp), Nat.le_refl _⟩

theorem Complete.reached_le {s : Screen} (complete : s.Complete)
    (follows : s.Follows) : s.reached ≤ (s.log.getD []).length := by
  by_cases dumped : s.dumped = []
  · have hconsecutive := complete.consecutive
    rw [dumped] at hconsecutive
    exact hconsecutive ▸ Nat.zero_le _
  · obtain ⟨log, hlog, -, hle⟩ := follows dumped
    simpa [hlog] using hle

/-- A poll of a log adds to what was complete just if it begins where that ended. -/
theorem complete_polled_iff {s : Screen} (follows : s.Follows)
    (complete : s.Complete) {log : List UInt8} (hlog : s.log = some log)
    (grown : List UInt8) :
    (s.step (.polled grown)).Complete ↔
      (unseenScreenText log (log ++ grown) s.serialPos).offset = s.reached := by
  have hreached : s.reached ≤ log.length := by
    simpa [hlog] using complete.reached_le follows
  have hstop := @unseenScreenText_stop log (log ++ grown) s.serialPos (by simp)
  have hdata : ∀ pos, (unseenScreenText log (log ++ grown) pos).data =
      (log ++ grown).drop (unseenScreenText log (log ++ grown) pos).offset :=
    fun _ => rfl
  simp only [Screen.step, hlog]
  constructor
  · intro after
    exact (complete.consecutive.unique
      (consecutive_concat.mp after.consecutive).1).symm
  · intro begins
    refine ⟨consecutive_concat.mpr ⟨begins ▸ complete.consecutive, hstop⟩, ?_⟩
    have hbytes := complete.bytes
    rw [hlog, Option.getD_some] at hbytes
    rw [List.flatMap_append, List.flatMap_singleton, hbytes, hdata, begins,
      Option.getD_some, List.take_length, ← List.take_append_of_le_length hreached,
      List.take_append_drop]

/-- A poll dumps the rest of the log just if it notices that the log is new. -/
theorem complete_step_iff {s : Screen} (follows : s.Follows)
    (complete : s.Complete) (event : ScreenEvent) :
    (s.step event).Complete ↔ s.Noticed event := by
  cases event with
  | wrote bytes =>
      refine iff_of_true ⟨complete.consecutive, ?_⟩ (fun _ polled => by cases polled)
      simp only [Screen.step, Option.getD_some]
      rw [List.take_append_of_le_length (complete.reached_le follows)]
      exact complete.bytes
  | launched =>
      exact iff_of_true ⟨rfl, rfl⟩ (fun _ polled => by cases polled)
  | polled grown =>
      cases hlog : s.log with
      | none =>
          have hsame : s.step (.polled grown) = s := by
            simp [Screen.step, hlog]
          rw [hsame]
          refine iff_of_true complete fun _ _ _ log found => ?_
          rw [hlog] at found
          cases found
      | some log =>
          rw [complete_polled_iff follows complete hlog grown]
          by_cases dumped : s.dumped = []
          · -- The first poll of this log has to begin at its first byte.
            have hconsecutive := complete.consecutive
            rw [dumped] at hconsecutive
            have hzero : 0 = s.reached := hconsecutive
            have hoffset : (unseenScreenText log (log ++ grown)
                s.serialPos).offset = 0 ↔
                s.serialPos = 0 ∨ log.length < s.serialPos := by
              simp only [unseenScreenText]
              split_ifs with new
              · simp [new]
              · simp [new]
            rw [← hzero, hoffset]
            constructor
            · intro noticed _ _ _ other same
              rw [hlog, Option.some.injEq] at same
              exact same ▸ noticed
            · exact fun noticed => noticed grown rfl dumped log hlog
          · obtain ⟨other, hother, hpos, hle⟩ := follows dumped
            rw [hlog, Option.some.injEq] at hother
            obtain rfl := hother
            refine iff_of_true ?_ fun _ _ none => absurd none dumped
            simp only [unseenScreenText]
            rw [if_neg (by omega), hpos]

/--
In every state of every run, what was dumped since the launch is the log as far
as the last poll has seen it, just if every first poll of a new log finds fewer
bytes in it than the saved offset says, or that offset is still zero.
-/
theorem dumped_once_iff (log : Option (List UInt8)) (events : List ScreenEvent) :
    Always Next (start log) events Complete ↔
      Meets Next (start log) events Noticed := by
  refine Trace.always_iff_meets_within (I := Follows) ?_ ⟨rfl, rfl⟩
    (fun dumped => absurd rfl dumped) ?_ ?_
    (Trace.of_foldl Screen.step (start log) events)
  · exact fun state event first second hfirst hsecond =>
      hfirst.symm.trans hsecond
  · rintro state event _ follows rfl
    exact follows.step event
  · rintro state event _ follows complete rfl
    exact complete_step_iff follows complete event

/-- After two bytes were polled QEMU is launched and writes three. -/
def outrun : List ScreenEvent :=
  [.wrote [65, 66], .polled [], .launched, .wrote [67, 68, 69], .polled []]

/-- Of the three only the last is dumped. -/
theorem dumped_once_not_outrun :
    (outrun.foldl Screen.step (start none)).dumped = [⟨2, [69]⟩] ∧
      ¬ ∀ log events, Always Next (start log) events Complete := by
  refine ⟨by decide, fun always => ?_⟩
  have complete := always none outrun outrun _ List.prefix_rfl
    (Trace.of_foldl Screen.step (start none) outrun)
  exact absurd complete.bytes (by decide)

end Screen

end RiscosBuilder.Build
