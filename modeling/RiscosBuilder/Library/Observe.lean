import Mathlib.Data.Option.Basic

/-!
# What is seen of a machine

A machine shows something at each request, and may be stuck in it for good.
Two states that a simulation relates show the same for all requests to come.
-/

namespace RiscosBuilder.Library

variable {σ ε ω : Type}

/-- What is seen of the requests, one after the other, up to one without an end. -/
def observe (serve : σ → ε → ω × Option σ) : σ → List ε → List ω
  | _, [] => []
  | state, request :: rest =>
      match serve state request with
      | (seen, none) => [seen]
      | (seen, some next) => seen :: observe serve next rest

/-- Related states show the same, and are related again or both stuck. -/
def Simulates (serve : σ → ε → ω × Option σ) (R : σ → σ → Prop) : Prop :=
  ∀ first second request, R first second →
    (serve first request).1 = (serve second request).1 ∧
      Option.Rel R (serve first request).2 (serve second request).2

theorem Simulates.observe_eq {serve : σ → ε → ω × Option σ} {R : σ → σ → Prop}
    (simulates : Simulates serve R) {first second : σ} (related : R first second)
    (requests : List ε) :
    observe serve first requests = observe serve second requests := by
  induction requests generalizing first second with
  | nil => rfl
  | cons request rest ih =>
      obtain ⟨hseen, hnext⟩ := simulates first second request related
      unfold observe
      cases hfirst : serve first request with
      | mk seen next =>
          cases hsecond : serve second request with
          | mk other after =>
              rw [hfirst, hsecond] at hseen hnext
              obtain rfl : seen = other := hseen
              cases hnext with
              | none => rfl
              | some hrelated => exact congrArg (seen :: ·) (ih hrelated)

end RiscosBuilder.Library
