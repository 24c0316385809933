import RiscosBuilder.Build.ParallelDownload
import RiscosBuilder.Library.Trace

/-!
# Downloads cut short

A connection that ends early raises nothing.  The workers and the resuming
stream count what they get, and `download` checks the size of their file; what
the single stream leaves behind is taken as it is.
-/

namespace RiscosBuilder.Build

open RiscosBuilder.Library RiscosBuilder.Library.ByteImage

/-- What may happen next, with a server that has `resource`. -/
def Next (resource : List UInt8) (state : Download) (event : Event)
    (after : Download) : Prop :=
  Serves resource state event ∧ state.step resource.length event = some after

/-- The probe lets the workers have the resource. -/
def Ranged (size : Nat) (rangesOk : Bool) : Prop :=
  rangesOk = true ∧ DL_CHUNK_MIN ≤ size

instance (size : Nat) (rangesOk : Bool) : Decidable (Ranged size rangesOk) :=
  inferInstanceAs (Decidable (_ ∧ _))

/-- How many bytes have come. -/
def received (events : List Event) : Nat :=
  (events.filterMap Event.delivered).flatten.length

@[simp] theorem received_append (events : List Event) (event : Event) :
    received (events ++ [event]) =
      received events + (event.delivered.getD []).length := by
  unfold received
  cases delivered : event.delivered <;> simp [delivered]

variable {resource old : List UInt8} {rangesOk : Bool} {events : List Event}
  {state after : Download}

theorem reachable_of_trace {start : Download}
    (trace : Trace (Next resource) start events state) :
    Reachable resource start state := by
  induction trace with
  | nil => exact .refl
  | snoc _ steps ih => exact ih.step steps.1 steps.2

theorem trace_of_reachable {start : Download}
    (reachable : Reachable resource start state) :
    ∃ events, Trace (Next resource) start events state := by
  induction reachable with
  | refl => exact ⟨[], .nil⟩
  | step _ serves steps ih =>
      obtain ⟨events, trace⟩ := ih
      exact ⟨_, trace.snoc ⟨serves, steps⟩⟩

/-! ## The single stream -/

theorem begun_single (unranged : ¬ Ranged resource.length rangesOk) :
    begun (some resource.length, rangesOk) old = ⟨old, .single false⟩ := by
  cases rangesOk with
  | false => rfl
  | true =>
      rw [begun, if_pos]
      exact Nat.not_le.mp fun large => unranged ⟨rfl, large⟩

/-- What has come is in the file, and the stream returns when it ends. -/
def Counted (resource : List UInt8) (events : List Event) (state : Download) :
    Prop :=
  match state.phase with
  | .single false => received events = 0 ∧ .stream .ends ∉ events
  | .single true =>
      state.file.length = received events ∧
        received events ≤ resource.length ∧ .stream .ends ∉ events
  | .returned =>
      state.file.length = received events ∧
        received events ≤ resource.length ∧ .stream .ends ∈ events
  | .exited => .stream .ends ∉ events
  | _ => False

theorem Counted.stream {served : Served} (counted : Counted resource events state)
    (serves : Serves resource state (.stream served))
    (steps : state.stream resource.length served = some after) :
    Counted resource (events ++ [.stream served]) after := by
  obtain ⟨file, phase⟩ := state
  cases phase with
  | single isOpen =>
      cases isOpen with
      | false =>
          obtain ⟨hnone, hnot⟩ := counted
          cases served with
          | opens =>
              cases steps
              simp [Counted, hnone, hnot, Event.delivered]
          | raises =>
              cases steps
              simp [Counted, hnot]
          | delivers buf => simp [Download.stream] at steps
          | ends => simp [Download.stream] at steps
      | true =>
          obtain ⟨hlength, hle, hnot⟩ := counted
          simp only at hlength
          cases served with
          | opens => simp [Download.stream] at steps
          | delivers buf =>
              have hbuf := (serves buf rfl).2.2.length_le
              simp only [Download.asked, List.length_drop, hlength] at hbuf
              cases steps
              simp only [Counted, List.length_append, hlength, received_append,
                Event.delivered, Option.getD_some]
              exact ⟨trivial, by omega, by simp [hnot]⟩
          | ends =>
              cases steps
              simp [Counted, hlength, hle, Event.delivered]
          | raises =>
              cases steps
              simp [Counted, hnot]
  | returned => cases served <;> simp [Download.stream] at steps
  | exited => cases served <;> simp [Download.stream] at steps
  | parallel tasks => exact counted.elim
  | resuming got stalls => exact counted.elim
  | streaming got stalls start => exact counted.elim
  | sizing => exact counted.elim

theorem Counted.step {event : Event} (counted : Counted resource events state)
    (next : Next resource state event after) :
    Counted resource (events ++ [event]) after := by
  obtain ⟨serves, steps⟩ := next
  cases event with
  | stream served => exact counted.stream serves steps
  | worker i served =>
      obtain ⟨file, phase⟩ := state
      cases phase <;> first | exact counted.elim | simp [Download.step] at steps
  | joined =>
      obtain ⟨file, phase⟩ := state
      cases phase <;> first | exact counted.elim | simp [Download.step] at steps
  | sized known =>
      obtain ⟨file, phase⟩ := state
      cases phase <;> first | exact counted.elim | simp [Download.step] at steps

theorem Counted.of_returned (counted : Counted resource events state)
    (returned : state.phase = .returned) :
    state.file.length = received events ∧
      received events ≤ resource.length ∧ .stream .ends ∈ events := by
  rwa [Counted, returned] at counted

theorem Counted.of_ends (counted : Counted resource events state)
    (ends : .stream .ends ∈ events) :
    state.phase = .returned ∧ state.file.length = received events := by
  obtain ⟨file, phase⟩ := state
  cases phase with
  | single isOpen =>
      cases isOpen with
      | false => exact absurd ends counted.2
      | true => exact absurd ends counted.2.2
  | returned => exact ⟨rfl, counted.1⟩
  | exited => exact absurd ends counted
  | parallel tasks => exact counted.elim
  | resuming got stalls => exact counted.elim
  | streaming got stalls start => exact counted.elim
  | sizing => exact counted.elim

theorem trace_counted (unranged : ¬ Ranged resource.length rangesOk)
    (trace : Trace (Next resource)
      (begun (some resource.length, rangesOk) old) events state) :
    Counted resource events state := by
  rw [begun_single unranged] at trace
  have hstart : Counted resource [] ⟨old, .single false⟩ :=
    ⟨rfl, List.not_mem_nil⟩
  exact trace.invariant hstart fun _ _ _ _ counted next => counted.step next

/-- A connection that opens and ends at once. -/
theorem trace_nothing (unranged : ¬ Ranged resource.length rangesOk)
    (old : List UInt8) :
    Trace (Next resource) (begun (some resource.length, rangesOk) old)
      [.stream .opens, .stream .ends] ⟨[], .returned⟩ := by
  rw [begun_single unranged]
  have hopens : Next resource ⟨old, .single false⟩ (.stream .opens)
      ⟨[], .single true⟩ := ⟨serves_nothing rfl, rfl⟩
  exact (Trace.single hopens).snoc ⟨serves_nothing rfl, rfl⟩

/-! ## All routes -/

/--
A run that returns leaves a whole file unless the resource comes as a single
stream, which ends before it has brought all of it.  So the probes that keep
every run from a truncated file are those that report ranges and a large
resource, and those that report an empty one.
-/
theorem download_whole (resource old : List UInt8) (rangesOk : Bool) :
    (∀ events state,
      Trace (Next resource) (begun (some resource.length, rangesOk) old)
        events state →
      ((state.phase = .returned → state.file.length = resource.length) ↔
        Ranged resource.length rangesOk ∨
          (.stream .ends ∈ events → received events = resource.length))) ∧
    ((∀ state, Reachable resource
        (begun (some resource.length, rangesOk) old) state →
        state.phase = .returned → state.file.length = resource.length) ↔
      Ranged resource.length rangesOk ∨ resource = []) := by
  have hranged : ∀ state, Ranged resource.length rangesOk →
      Reachable resource (begun (some resource.length, rangesOk) old) state →
      state.phase = .returned → state.file.length = resource.length := by
    intro state ranged reachable returned
    obtain ⟨rfl, large⟩ := ranged
    have sound := reachable_sound large reachable
    rw [Sound, returned] at sound
    exact congrArg List.length sound
  constructor
  · intro events state trace
    by_cases ranged : Ranged resource.length rangesOk
    · exact ⟨fun _ => Or.inl ranged,
        fun _ => hranged state ranged (reachable_of_trace trace)⟩
    · have counted := trace_counted ranged trace
      simp only [ranged, false_or]
      constructor
      · intro whole ends
        obtain ⟨returned, hlength⟩ := counted.of_ends ends
        rw [← hlength, whole returned]
      · intro complete returned
        obtain ⟨hlength, -, ends⟩ := counted.of_returned returned
        rw [hlength, complete ends]
  · constructor
    · intro whole
      by_cases ranged : Ranged resource.length rangesOk
      · exact Or.inl ranged
      · have hnone := whole _ (reachable_of_trace (trace_nothing ranged old)) rfl
        exact Or.inr (List.length_eq_zero_iff.mp hnone.symm)
    · rintro (ranged | rfl) state reachable returned
      · exact hranged state ranged reachable returned
      · have unranged : ¬ Ranged ([] : List UInt8).length rangesOk := by
          rintro ⟨-, large⟩
          exact absurd large (by decide)
        obtain ⟨events, trace⟩ := trace_of_reachable reachable
        obtain ⟨hlength, hle, -⟩ :=
          (trace_counted unranged trace).of_returned returned
        rw [hlength, Nat.le_zero.mp hle]
        rfl

/-- Five bytes are announced, none of them comes, and `download` returns. -/
theorem download_whole_not_short :
    ¬ ∀ state, Reachable [104, 101, 108, 108, 111] (begun (some 5, false) [])
        state → state.phase = .returned → state.file.length = 5 := by
  intro whole
  have trace := @trace_nothing [104, 101, 108, 108, 111] false (by decide) []
  exact absurd (whole _ (reachable_of_trace trace) rfl) (by decide)

end RiscosBuilder.Build
