import Mathlib.Data.List.Perm.Basic

/-!
# Sessions

A machine that answers one request after the other.  A machine that refines
another one answers whole sessions as that does, and requests that commute may
come in any order.
-/

namespace RiscosBuilder.Library

variable {σ τ ε ω : Type}

/-- The answers to the requests, and the state behind the last. -/
def session (serve : σ → ε → ω × σ) : σ → List ε → List ω × σ
  | state, [] => ([], state)
  | state, request :: rest =>
      let (answer, next) := serve state request
      let (answers, last) := session serve next rest
      (answer :: answers, last)

theorem session_cons {serve : σ → ε → ω × σ} (state : σ) (request : ε)
    (rest : List ε) :
    session serve state (request :: rest) =
      ((serve state request).1 ::
          (session serve (serve state request).2 rest).1,
        (session serve (serve state request).2 rest).2) :=
  rfl

/--
The concrete machine answers a request as the abstract one does, and related
states stay related.
-/
def Refines (concrete : σ → ε → ω × σ) (abstract : τ → ε → ω × τ)
    (R : σ → τ → Prop) (P : ε → Prop) : Prop :=
  ∀ state model request, R state model → P request →
    (concrete state request).1 = (abstract model request).1 ∧
      R (concrete state request).2 (abstract model request).2

theorem Refines.session {concrete : σ → ε → ω × σ} {abstract : τ → ε → ω × τ}
    {R : σ → τ → Prop} {P : ε → Prop}
    (refines : Refines concrete abstract R P) {state : σ} {model : τ}
    (related : R state model) {requests : List ε}
    (meets : ∀ request ∈ requests, P request) :
    (session concrete state requests).1 =
        (session abstract model requests).1 ∧
      R (session concrete state requests).2
        (session abstract model requests).2 := by
  induction requests generalizing state model with
  | nil => exact ⟨rfl, related⟩
  | cons request rest ih =>
      rw [List.forall_mem_cons] at meets
      obtain ⟨hanswer, hnext⟩ := refines state model request related meets.1
      obtain ⟨hanswers, hlast⟩ := ih hnext meets.2
      rw [session_cons, session_cons, hanswer, hanswers]
      exact ⟨rfl, hlast⟩

/-- The two requests get the same answers in either order, and lead to one state. -/
structure Commute (serve : σ → ε → ω × σ) (state : σ) (first second : ε) :
    Prop where
  first_answer : (serve (serve state second).2 first).1 = (serve state first).1
  second_answer :
    (serve (serve state first).2 second).1 = (serve state second).1
  same_state : (serve (serve state first).2 second).2 =
    (serve (serve state second).2 first).2

/--
Requests that commute pairwise, in every state that they lead to, may come in
any order: each keeps its answer, and the last state is the same.
-/
theorem session_perm {serve : σ → ε → ω × σ} {I : σ → Prop} {P : ε → Prop}
    {C : ε → ε → Prop} (symm : ∀ {first second}, C first second → C second first)
    (keeps : ∀ state request, I state → P request → I (serve state request).2)
    (commute : ∀ state first second, I state → P first → P second →
      C first second → Commute serve state first second)
    {requests others : List ε} (perm : requests.Perm others) {state : σ}
    (holds : I state) (meets : ∀ request ∈ requests, P request)
    (apart : requests.Pairwise C) :
    (session serve state requests).2 = (session serve state others).2 ∧
      (requests.zip (session serve state requests).1).Perm
        (others.zip (session serve state others).1) := by
  induction perm generalizing state with
  | nil => exact ⟨rfl, List.Perm.refl _⟩
  | cons request perm ih =>
      rw [List.forall_mem_cons] at meets
      obtain ⟨hlast, hzip⟩ := ih (keeps state request holds meets.1) meets.2
        (List.pairwise_cons.mp apart).2
      rw [session_cons, session_cons]
      exact ⟨hlast, hzip.cons _⟩
  | swap second first rest =>
      rw [List.forall_mem_cons, List.forall_mem_cons] at meets
      have hboth := commute state first second holds meets.1 meets.2.1
        ((List.pairwise_cons.mp apart).1 second List.mem_cons_self)
      rw [session_cons, session_cons, session_cons, session_cons,
        hboth.first_answer, hboth.second_answer, hboth.same_state]
      exact ⟨rfl, List.Perm.swap _ _ _⟩
  | trans one two ihOne ihTwo =>
      obtain ⟨hlast, hzip⟩ := ihOne holds meets apart
      have hmeets : ∀ request ∈ _, P request := fun request member =>
        meets request (one.mem_iff.mpr member)
      obtain ⟨hlater, hlaterZip⟩ := ihTwo holds hmeets
        (one.pairwise apart symm)
      exact ⟨hlast.trans hlater, hzip.trans hlaterZip⟩

end RiscosBuilder.Library
