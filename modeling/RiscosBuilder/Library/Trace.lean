import Mathlib.Data.List.Induction

/-!
# Traces

The runs of a labelled step relation, with all that happened on the way.
-/

namespace RiscosBuilder.Library

variable {σ ε : Type}

/-- From `start` the events lead to a state; the last event stands last. -/
inductive Trace (step : σ → ε → σ → Prop) (start : σ) : List ε → σ → Prop
  | nil : Trace step start [] start
  | snoc {events : List ε} {event : ε} {state after : σ}
      (trace : Trace step start events state) (steps : step state event after) :
      Trace step start (events ++ [event]) after

/-- In every state on the way, the first and the last included, `P` holds. -/
def Always (step : σ → ε → σ → Prop) (start : σ) (events : List ε)
    (P : σ → Prop) : Prop :=
  ∀ front state, front <+: events → Trace step start front state → P state

/-- Every event comes in a state in which it meets `C`. -/
def Meets (step : σ → ε → σ → Prop) (start : σ) (events : List ε)
    (C : σ → ε → Prop) : Prop :=
  ∀ front event state, front ++ [event] <+: events →
    Trace step start front state → C state event

namespace Trace

variable {step : σ → ε → σ → Prop} {start state : σ} {events : List ε}

/-- What every step keeps, knowing what has happened, holds in the end. -/
theorem invariant {P : List ε → σ → Prop} (holds : P [] start)
    (keeps : ∀ events state event after, P events state →
      step state event after → P (events ++ [event]) after)
    (trace : Trace step start events state) : P events state := by
  induction trace with
  | nil => exact holds
  | snoc _ steps ih => exact keeps _ _ _ _ ih steps

/-- The same, when every event comes in a state in which it meets `C`. -/
theorem invariant_of_meets {P : List ε → σ → Prop} {C : σ → ε → Prop}
    (holds : P [] start)
    (keeps : ∀ events state event after, P events state → C state event →
      step state event after → P (events ++ [event]) after)
    (meets : Meets step start events C)
    (trace : Trace step start events state) : P events state := by
  induction trace with
  | nil => exact holds
  | snoc trace steps ih =>
      refine keeps _ _ _ _ (ih fun front event middle within => ?_)
        (meets _ _ _ (List.prefix_refl _) trace) steps
      exact meets front event middle (within.trans (List.prefix_append _ _))

theorem of_nil (trace : Trace step start [] state) : state = start := by
  generalize same : ([] : List ε) = events at trace
  cases trace with
  | nil => rfl
  | snoc _ _ => simp at same

/-- The last step of a trace. -/
theorem of_snoc {event : ε} {after : σ}
    (trace : Trace step start (events ++ [event]) after) :
    ∃ before, Trace step start events before ∧ step before event after := by
  generalize same : events ++ [event] = all at trace
  cases trace with
  | nil => simp at same
  | snoc earlier steps =>
      obtain ⟨rfl, hlast⟩ := List.append_inj' same rfl
      obtain rfl := List.singleton_inj.mp hlast
      exact ⟨_, earlier, steps⟩

theorem single {event : ε} {after : σ} (steps : step start event after) :
    Trace step start [event] after :=
  .snoc .nil steps

theorem trans {others : List ε} {last : σ} (trace : Trace step start events state)
    (later : Trace step state others last) :
    Trace step start (events ++ others) last := by
  induction later with
  | nil => simpa using trace
  | snoc _ steps ih => simpa using ih.snoc steps

/-- The steps of a function that can be taken one after the other. -/
theorem of_foldlM {next : σ → ε → Option σ} {last : σ}
    (runs : events.foldlM next start = some last) :
    Trace (fun state event after => next state event = some after)
      start events last := by
  induction events generalizing start with
  | nil => exact Option.some.inj runs ▸ .nil
  | cons event events ih =>
      rw [List.foldlM_cons, Option.bind_eq_bind, Option.bind_eq_some_iff] at runs
      obtain ⟨middle, first, later⟩ := runs
      exact (single first).trans (ih later)

/-- A function takes its steps whatever the events are. -/
theorem of_foldl (next : σ → ε → σ) (start : σ) (events : List ε) :
    Trace (fun state event after => next state event = after) start events
      (events.foldl next start) := by
  induction events using List.reverseRecOn with
  | nil => exact .nil
  | append_singleton events event ih =>
      rw [List.foldl_append]
      exact ih.snoc rfl

/-- A trace passes through a state after each part of its events. -/
theorem split {front back : List ε} {last : σ}
    (trace : Trace step start (front ++ back) last) :
    ∃ middle, Trace step start front middle ∧ Trace step middle back last := by
  induction back using List.reverseRecOn generalizing last with
  | nil => exact ⟨last, by simpa using trace, .nil⟩
  | append_singleton back event ih =>
      rw [← List.append_assoc] at trace
      obtain ⟨before, hbefore, hstep⟩ := trace.of_snoc
      obtain ⟨middle, hfront, hback⟩ := ih hbefore
      exact ⟨middle, hfront, hback.snoc hstep⟩

section Deterministic

variable (deterministic : ∀ state event first second,
  step state event first → step state event second → first = second)

include deterministic

/-- The events determine the state. -/
theorem unique {first second : σ} (hfirst : Trace step start events first)
    (hsecond : Trace step start events second) : first = second := by
  induction hfirst generalizing second with
  | nil => exact hsecond.of_nil.symm
  | snoc _ steps ih =>
      obtain ⟨before, hbefore, hstep⟩ := hsecond.of_snoc
      exact deterministic _ _ _ _ (ih hbefore ▸ steps) hstep

/--
When a step keeps `P` just if it meets `C`, all states of a trace have `P` just
if all of its steps meet `C`.
-/
theorem always_iff_meets {P : σ → Prop} {C : σ → ε → Prop} (holds : P start)
    (keeps : ∀ state event after, P state → step state event after →
      (P after ↔ C state event))
    (trace : Trace step start events state) :
    Always step start events P ↔ Meets step start events C := by
  have hpasses : ∀ front event, front ++ [event] <+: events →
      ∃ before after, Trace step start front before ∧ step before event after ∧
        Trace step start (front ++ [event]) after := by
    rintro front event ⟨back, rfl⟩
    obtain ⟨after, hafter, -⟩ := trace.split
    obtain ⟨before, hbefore, hstep⟩ := hafter.of_snoc
    exact ⟨before, after, hbefore, hstep, hafter⟩
  constructor
  · intro all front event middle within hmiddle
    obtain ⟨before, after, hbefore, hstep, hafter⟩ := hpasses front event within
    rw [hmiddle.unique deterministic hbefore]
    have hearlier : front <+: events :=
      (List.prefix_append front [event]).trans within
    exact (keeps before event after (all front before hearlier hbefore) hstep).mp
      (all _ after within hafter)
  · intro meets front
    induction front using List.reverseRecOn with
    | nil => exact fun middle _ hmiddle => hmiddle.of_nil ▸ holds
    | append_singleton front event ih =>
        intro middle within hmiddle
        obtain ⟨before, hbefore, hstep⟩ := hmiddle.of_snoc
        have hearlier : front <+: events :=
          (List.prefix_append front [event]).trans within
        exact (keeps before event middle (ih before hearlier hbefore) hstep).mpr
          (meets front event before within hbefore)

/-- The same, with an invariant that every step keeps. -/
theorem always_iff_meets_within {P I : σ → Prop} {C : σ → ε → Prop}
    (holds : P start) (within : I start)
    (stays : ∀ state event after, I state → step state event after → I after)
    (keeps : ∀ state event after, I state → P state → step state event after →
      (P after ↔ C state event))
    (trace : Trace step start events state) :
    Always step start events P ↔ Meets step start events C := by
  have hall : ∀ front middle, Trace step start front middle → I middle :=
    fun front middle passes => passes.invariant within
      fun _ state event after => stays state event after
  have hboth := @always_iff_meets σ ε step start state events deterministic
    (fun middle => I middle ∧ P middle) C ⟨within, holds⟩
    (fun middle event after both steps => by
      rw [← keeps middle event after both.1 both.2 steps]
      exact and_iff_right (stays middle event after both.1 steps)) trace
  rw [← hboth]
  constructor
  · exact fun always front middle early passes =>
      ⟨hall front middle passes, always front middle early passes⟩
  · exact fun always front middle early passes =>
      (always front middle early passes).2

end Deterministic

end Trace

end RiscosBuilder.Library
