/-!
# Loops

A loop is a body that yields the next state, or nothing once it is done.  A
property that every turn keeps holds of the state in which a run stops, and a
run stops when every turn lowers a measure.  A loop that looks for one place
after the other is a fold over the places.
-/

namespace RiscosBuilder.Library.Loop

variable {σ : Type}

/-- Run a loop body until it is done; `none` when `fuel` turns do not suffice. -/
def run (body : σ → Option σ) : Nat → σ → Option σ
  | 0, state =>
      match body state with
      | none => some state
      | some _ => none
  | fuel + 1, state =>
      match body state with
      | none => some state
      | some next => run body fuel next

/-- The state after `count` turns at most. -/
def turns (body : σ → Option σ) : Nat → σ → σ
  | 0, state => state
  | count + 1, state =>
      match body state with
      | none => state
      | some next => turns body count next

variable {body : σ → Option σ}

theorem run_of_done {state : σ} (fuel : Nat) (done : body state = none) :
    run body fuel state = some state := by
  cases fuel <;> simp [run, done]

theorem run_of_turn {fuel : Nat} {state next : σ}
    (turn : body state = some next) :
    run body (fuel + 1) state = run body fuel next := by
  simp [run, turn]

/-- What every turn keeps holds in the end. -/
theorem run_invariant {P : σ → Prop}
    (keeps : ∀ state next, P state → body state = some next → P next)
    {fuel : Nat} {state last : σ} (holds : P state)
    (stops : run body fuel state = some last) :
    P last ∧ body last = none := by
  induction fuel generalizing state with
  | zero =>
      cases turn : body state with
      | none =>
          simp only [run, turn, Option.some.injEq] at stops
          exact stops ▸ ⟨holds, turn⟩
      | some next => simp [run, turn] at stops
  | succ fuel ih =>
      cases turn : body state with
      | none =>
          simp only [run, turn, Option.some.injEq] at stops
          exact stops ▸ ⟨holds, turn⟩
      | some next =>
          rw [run_of_turn turn] at stops
          exact ih (keeps state next holds turn) stops

/-- A loop stops when every turn lowers a measure. -/
theorem run_stops {P : σ → Prop} (measure : σ → Nat)
    (lowers : ∀ state next, P state → body state = some next →
      P next ∧ measure next < measure state)
    {fuel : Nat} {state : σ} (holds : P state) (enough : measure state ≤ fuel) :
    ∃ last, run body fuel state = some last := by
  induction fuel generalizing state with
  | zero =>
      cases turn : body state with
      | none => exact ⟨state, run_of_done 0 turn⟩
      | some next =>
          have hlt := (lowers state next holds turn).2
          omega
  | succ fuel ih =>
      cases turn : body state with
      | none => exact ⟨state, run_of_done _ turn⟩
      | some next =>
          obtain ⟨hnext, hlt⟩ := lowers state next holds turn
          rw [run_of_turn turn]
          exact ih hnext (by omega)

/-- However much fuel it takes, a run stops in one state only. -/
theorem run_unique {fuel other : Nat} {state first second : σ}
    (hfirst : run body fuel state = some first)
    (hsecond : run body other state = some second) : first = second := by
  induction fuel generalizing state other with
  | zero =>
      cases turn : body state with
      | none =>
          rw [run_of_done _ turn, Option.some.injEq] at hfirst hsecond
          exact hfirst.symm.trans hsecond
      | some next => simp [run, turn] at hfirst
  | succ fuel ih =>
      cases turn : body state with
      | none =>
          rw [run_of_done _ turn, Option.some.injEq] at hfirst hsecond
          exact hfirst.symm.trans hsecond
      | some next =>
          rw [run_of_turn turn] at hfirst
          cases other with
          | zero => simp [run, turn] at hsecond
          | succ other =>
              rw [run_of_turn turn] at hsecond
              exact ih hfirst hsecond

/-- More fuel does no harm. -/
theorem run_enough {fuel more : Nat} {state last : σ}
    (stops : run body fuel state = some last) (le : fuel ≤ more) :
    run body more state = some last := by
  induction fuel generalizing state more with
  | zero =>
      cases turn : body state with
      | none => rwa [run_of_done _ turn] at stops ⊢
      | some next => simp [run, turn] at stops
  | succ fuel ih =>
      cases turn : body state with
      | none => rwa [run_of_done _ turn] at stops ⊢
      | some next =>
          obtain ⟨others, rfl⟩ := Nat.exists_eq_add_of_lt le
          rw [run_of_turn turn] at stops ⊢
          exact ih stops (Nat.le_add_right fuel others)

theorem turns_of_done {state : σ} (count : Nat) (done : body state = none) :
    turns body count state = state := by
  cases count <;> simp [turns, done]

/-- What every turn keeps holds after any number of turns. -/
theorem turns_invariant {P : σ → Prop}
    (keeps : ∀ state next, P state → body state = some next → P next)
    {state : σ} (holds : P state) (count : Nat) : P (turns body count state) := by
  induction count generalizing state with
  | zero => exact holds
  | succ count ih =>
      rw [turns]
      cases turn : body state with
      | none => exact holds
      | some next => exact ih (keeps state next holds turn)

/-- A turn that comes last. -/
theorem turns_succ {count : Nat} {state next : σ}
    (turn : body (turns body count state) = some next) :
    turns body (count + 1) state = next := by
  induction count generalizing state with
  | zero =>
      rw [turns] at turn
      simp [turns, turn]
  | succ count ih =>
      cases first : body state with
      | none =>
          rw [turns_of_done _ first, first] at turn
          exact absurd turn.symm (Option.some_ne_none next)
      | some second =>
          simp only [turns, first] at turn ⊢
          exact ih turn

/-- Two loops that take the same turns run alike. -/
theorem run_congr {other : σ → Option σ} {P : σ → Prop}
    (keeps : ∀ state next, P state → body state = some next → P next)
    (same : ∀ state, P state → other state = body state)
    {state : σ} (holds : P state) (fuel : Nat) :
    run other fuel state = run body fuel state := by
  induction fuel generalizing state with
  | zero => simp only [run, same state holds]
  | succ fuel ih =>
      simp only [run, same state holds]
      cases turn : body state with
      | none => rfl
      | some next => exact ih (keeps state next holds turn)

section Map

variable {τ : Type} {other : τ → Option τ} {f : σ → τ}

/-- A loop that takes the images of another's turns comes to the image of its end. -/
theorem run_map (same : ∀ state, other (f state) = (body state).map f)
    (fuel : Nat) (state : σ) :
    run other fuel (f state) = (run body fuel state).map f := by
  induction fuel generalizing state with
  | zero =>
      simp only [run, same state]
      cases body state <;> rfl
  | succ fuel ih =>
      simp only [run, same state]
      cases body state with
      | none => rfl
      | some next => exact ih next

theorem turns_map (same : ∀ state, other (f state) = (body state).map f)
    (count : Nat) (state : σ) :
    turns other count (f state) = f (turns body count state) := by
  induction count generalizing state with
  | zero => rfl
  | succ count ih =>
      simp only [turns, same state]
      cases body state with
      | none => rfl
      | some next => exact ih next

end Map

section Places

/-- Behind the first place that is not below `idx` come the others. -/
theorem filter_after {places others : List Nat} {idx i : Nat}
    (ascending : places.Pairwise (· < ·))
    (here : places.filter (fun place => idx ≤ place) = i :: others) :
    places.filter (fun place => i + 1 ≤ place) = others := by
  have hmember : i ∈ places.filter fun place => idx ≤ place := by
    rw [here]
    exact List.mem_cons_self
  have hidx : idx ≤ i := of_decide_eq_true (List.mem_filter.mp hmember).2
  have hpairwise := here ▸ ascending.filter fun place => idx ≤ place
  have habove := (List.pairwise_cons.mp hpairwise).1
  calc places.filter (fun place => i + 1 ≤ place)
      = (places.filter fun place => idx ≤ place).filter
          (fun place => i + 1 ≤ place) := by
        rw [List.filter_filter]
        apply List.filter_congr
        intro place _
        simp only [← Bool.decide_and, decide_eq_decide]
        omega
    _ = others := by
        rw [here, List.filter_cons_of_neg (by simp)]
        exact List.filter_eq_self.mpr fun place later =>
          decide_eq_true (habove place later)

variable {τ : Type} {wrap : τ → σ} {idx : τ → Nat} {visit : τ → Nat → τ}

/--
A loop that looks for a place from an index on, visits it and goes on behind it
visits the places in order.
-/
theorem run_places {all : List Nat} (ascending : all.Pairwise (· < ·))
    (turns : ∀ state, body (wrap state) =
      (all.find? fun place => idx state ≤ place).map (wrap <| visit state ·))
    (moves : ∀ state place, idx (visit state place) = place + 1)
    {places : List Nat} {state : τ}
    (ahead : all.filter (fun place => idx state ≤ place) = places) :
    run body places.length (wrap state) = some (wrap (places.foldl visit state)) := by
  have hturn := turns state
  rw [← List.head?_filter, ahead] at hturn
  induction places generalizing state with
  | nil => exact run_of_done 0 hturn
  | cons place others ih =>
      have hafter := filter_after ascending ahead
      rw [← moves state place] at hafter
      have hnext := turns (visit state place)
      rw [← List.head?_filter, hafter] at hnext
      rw [List.length_cons, run_of_turn hturn, List.foldl_cons]
      exact ih hafter hnext

/-- A loop that begins in front of all places. -/
theorem run_all_places {all : List Nat} (ascending : all.Pairwise (· < ·))
    (turns : ∀ state, body (wrap state) =
      (all.find? fun place => idx state ≤ place).map (wrap <| visit state ·))
    (moves : ∀ state place, idx (visit state place) = place + 1)
    (state : τ) (front : idx state = 0) :
    run body all.length (wrap state) = some (wrap (all.foldl visit state)) :=
  run_places ascending turns moves (List.filter_eq_self.mpr fun _ _ =>
    decide_eq_true (front ▸ Nat.zero_le _))

end Places

end RiscosBuilder.Library.Loop
