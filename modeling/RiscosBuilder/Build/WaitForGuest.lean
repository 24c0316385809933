import RiscosBuilder.Build.HostForward
import RiscosBuilder.Library.Trace

/-!
# Waiting for the guest

`_wait_ssh` and `_wait_telnet` of `build.py`.  A turn of either loop probes the
guest, looks after the forward, and waits or restarts the guest.
-/

namespace RiscosBuilder.Build

open RiscosBuilder.Library

/-- Where in its turn a loop is. -/
inductive Point where
  | probing
  | guarding
  | waiting
  | returned (ready : Bool)
  deriving DecidableEq, Repr

/--
What a loop learns next: the result of its probe; the address detected and what
becomes of the two monitor commands if they are sent; the numbers of
lost-interrupt lines, now and once the guest has been restarted.
-/
inductive Observation where
  | probed (ok : Bool)
  | detected (actual : Text) (rem add : Reply)
  | waited (lost fresh : Nat)
  deriving DecidableEq, Repr

/-- The arguments, `restart_cb` as far as there is one, and `max_restarts`. -/
structure WaitConfig where
  maxRetries : Int
  maxRestarts : Int
  restartCb : Bool

/-! ## `_wait_ssh` -/

structure WaitSsh where
  retry : Nat
  restarts : Nat
  lostBase : Nat
  guard : Guard
  point : Point
  deriving DecidableEq, Repr

namespace WaitSsh

/-- Before the first turn, after a launch. -/
def start (lostBase : Nat) : WaitSsh where
  retry := 0
  restarts := 0
  lostBase := lostBase
  guard := .launched 22
  point := .probing

/-- `restart_cb` and the assignments after it. -/
def restarted (s : WaitSsh) (fresh : Nat) : WaitSsh where
  retry := 0
  restarts := s.restarts + 1
  lostBase := fresh
  guard := .launched 22
  point := .probing

/-- No address anywhere and a storm of lost interrupts. -/
def Wedged (s : WaitSsh) (lost : Nat) : Prop :=
  s.guard.guardDone = false ∧ 6 ≤ s.retry ∧ 3 ≤ (lost : Int) - s.lostBase

instance (s : WaitSsh) (lost : Nat) : Decidable (s.Wedged lost) :=
  inferInstanceAs (Decidable (_ ∧ _ ∧ _))

/-- The turn from the wedge cutoff on. -/
def wait (config : WaitConfig) (s : WaitSsh) (lost fresh : Nat) : WaitSsh :=
  if s.Wedged lost then
    if config.restartCb = false ∨ config.maxRestarts ≤ s.restarts then
      { s with point := .returned false }
    else s.restarted fresh
  else if config.maxRetries < (s.retry + 1 : Nat) then
    if config.maxRestarts ≤ s.restarts ∨ config.restartCb = false then
      { s with retry := s.retry + 1, point := .returned false }
    else s.restarted fresh
  else { s with retry := s.retry + 1, point := .probing }

/-- What the loop does next; `none` when it is not there. -/
def step (config : WaitConfig) (s : WaitSsh) : Observation → Option WaitSsh
  | .probed ok =>
      if s.point = .probing then
        some { s with point := if ok then .returned true else .guarding }
      else none
  | .detected actual rem add =>
      if s.point = .guarding then
        some { s with guard := s.guard.detect 22 actual rem add, point := .waiting }
      else none
  | .waited lost fresh =>
      if s.point = .waiting then some (s.wait config lost fresh) else none

end WaitSsh

/-! ## `_wait_telnet` -/

structure WaitTelnet where
  retry : Nat
  restarted : Bool
  guard : Guard
  point : Point
  deriving DecidableEq, Repr

namespace WaitTelnet

def start : WaitTelnet where
  retry := 0
  restarted := false
  guard := .launched 23
  point := .probing

/-- The turn from the `time.sleep` on. -/
def wait (config : WaitConfig) (s : WaitTelnet) : WaitTelnet :=
  if config.maxRetries < (s.retry + 1 : Nat) then
    if s.restarted = true ∨ config.restartCb = false then
      { s with retry := s.retry + 1, point := .returned false }
    else
      { retry := 0, restarted := true, guard := .launched 23, point := .probing }
  else { s with retry := s.retry + 1, point := .probing }

/-- What the loop does next; it counts no lost interrupts. -/
def step (config : WaitConfig) (s : WaitTelnet) : Observation → Option WaitTelnet
  | .probed ok =>
      if s.point = .probing then
        some { s with point := if ok then .returned true else .guarding }
      else none
  | .detected actual rem add =>
      if s.point = .guarding then
        some { s with guard := s.guard.detect 23 actual rem add, point := .waiting }
      else none
  | .waited _ _ =>
      if s.point = .waiting then some (s.wait config) else none

end WaitTelnet

/-! ## The guard along a wait -/

/-- What is detected while the guard is not done, it can go by. -/
def Guard.Trusts (g : Guard) (observation : Observation) : Prop :=
  ∀ actual rem add, observation = .detected actual rem add →
    g.guardDone = false → actual ≠ [] → g.Lands actual rem add

/-- What either loop makes of its guard when it learns something. -/
def Guard.After (guestPort : Nat) (g next : Guard) : Observation → Prop
  | .probed _ => next = g
  | .detected actual rem add => next = g.detect guestPort actual rem add
  | .waited _ _ => next = g ∨ next = .launched guestPort

/-- The guard stays settled just if it can go by what is detected. -/
theorem Guard.After.settled_iff {guestPort : Nat} {g next : Guard}
    {observation : Observation} (after : g.After guestPort next observation)
    (settled : g.Settled) : next.Settled ↔ g.Trusts observation := by
  cases observation with
  | probed ok =>
      obtain rfl : next = g := after
      exact iff_of_true settled (by simp [Trusts])
  | detected actual rem add =>
      obtain rfl : next = g.detect guestPort actual rem add := after
      refine (detect_settled_iff settled).trans ?_
      simp [Trusts]
  | waited lost fresh =>
      refine iff_of_true ?_ (by simp [Trusts])
      rcases after with rfl | rfl
      · exact settled
      · exact launched_settled guestPort

/-- What a step of `_wait_ssh` can be. -/
theorem WaitSsh.step_cases {config : WaitConfig} {s after : WaitSsh}
    {observation : Observation} (steps : s.step config observation = some after) :
    (∃ ok, observation = .probed ok ∧ s.point = .probing ∧
        after = { s with point := if ok then .returned true else .guarding }) ∨
      (∃ actual rem add, observation = .detected actual rem add ∧
        s.point = .guarding ∧ after =
          { s with guard := s.guard.detect 22 actual rem add, point := .waiting }) ∨
      ∃ lost fresh, observation = .waited lost fresh ∧ s.point = .waiting ∧
        after = s.wait config lost fresh := by
  cases observation with
  | probed ok =>
      simp only [step, Option.ite_none_right_eq_some, Option.some.injEq] at steps
      exact Or.inl ⟨ok, rfl, steps.1, steps.2.symm⟩
  | detected actual rem add =>
      simp only [step, Option.ite_none_right_eq_some, Option.some.injEq] at steps
      exact Or.inr (Or.inl ⟨actual, rem, add, rfl, steps.1, steps.2.symm⟩)
  | waited lost fresh =>
      simp only [step, Option.ite_none_right_eq_some, Option.some.injEq] at steps
      exact Or.inr (Or.inr ⟨lost, fresh, rfl, steps.1, steps.2.symm⟩)

/-- How a turn ends. -/
theorem WaitSsh.wait_cases (config : WaitConfig) (s : WaitSsh) (lost fresh : Nat) :
    (∃ retry, s.wait config lost fresh =
        { s with retry, point := .returned false }) ∨
      ((s.restarts : Int) < config.maxRestarts ∧
        s.wait config lost fresh = s.restarted fresh) ∨
      s.wait config lost fresh =
        { s with retry := s.retry + 1, point := .probing } := by
  unfold WaitSsh.wait
  split_ifs with wedged refused late refused'
  · exact Or.inl ⟨s.retry, rfl⟩
  · exact Or.inr (Or.inl ⟨by omega, rfl⟩)
  · exact Or.inl ⟨s.retry + 1, rfl⟩
  · exact Or.inr (Or.inl ⟨by omega, rfl⟩)
  · exact Or.inr (Or.inr rfl)

theorem WaitSsh.step_guard {config : WaitConfig} {s after : WaitSsh}
    {observation : Observation} (steps : s.step config observation = some after) :
    s.guard.After 22 after.guard observation := by
  rcases step_cases steps with ⟨ok, rfl, -, rfl⟩ |
    ⟨actual, rem, add, rfl, -, rfl⟩ | ⟨lost, fresh, rfl, -, rfl⟩
  · rfl
  · rfl
  · rcases s.wait_cases config lost fresh with ⟨retry, ends⟩ | ⟨-, ends⟩ | ends
    · rw [ends]
      exact Or.inl rfl
    · rw [ends]
      exact Or.inr rfl
    · rw [ends]
      exact Or.inl rfl

theorem WaitTelnet.step_guard {config : WaitConfig} {s after : WaitTelnet}
    {observation : Observation} (steps : s.step config observation = some after) :
    s.guard.After 23 after.guard observation := by
  cases observation with
  | probed ok =>
      simp only [step, Option.ite_none_right_eq_some, Option.some.injEq] at steps
      exact (congrArg guard steps.2).symm
  | detected actual rem add =>
      simp only [step, Option.ite_none_right_eq_some, Option.some.injEq] at steps
      exact (congrArg guard steps.2).symm
  | waited lost fresh =>
      simp only [step, Option.ite_none_right_eq_some, Option.some.injEq] at steps
      rw [← steps.2, wait]
      split_ifs
      · exact Or.inl rfl
      · exact Or.inr rfl
      · exact Or.inl rfl

/-- The steps of `_wait_ssh`. -/
def WaitSsh.Next (config : WaitConfig) (s : WaitSsh) (observation : Observation)
    (after : WaitSsh) : Prop :=
  s.step config observation = some after

/-- The steps of `_wait_telnet`. -/
def WaitTelnet.Next (config : WaitConfig) (s : WaitTelnet)
    (observation : Observation) (after : WaitTelnet) : Prop :=
  s.step config observation = some after

/--
Along every wait for ssh and for telnet: when the guard is done QEMU forwards to
the address last detected, in all states, just if all that is detected before
the guard is done is something it can go by.
-/
theorem guard_settles_iff (config : WaitConfig) (lostBase : Nat)
    (observations : List Observation) :
    (∀ s, Trace (WaitSsh.Next config) (WaitSsh.start lostBase) observations s →
      (Always (WaitSsh.Next config) (WaitSsh.start lostBase) observations
          (fun s => s.guard.Settled) ↔
        Meets (WaitSsh.Next config) (WaitSsh.start lostBase) observations
          fun s observation => s.guard.Trusts observation)) ∧
    ∀ s, Trace (WaitTelnet.Next config) WaitTelnet.start observations s →
      (Always (WaitTelnet.Next config) WaitTelnet.start observations
          (fun s => s.guard.Settled) ↔
        Meets (WaitTelnet.Next config) WaitTelnet.start observations
          fun s observation => s.guard.Trusts observation) := by
  constructor
  · intro s trace
    refine trace.always_iff_meets ?_ (Guard.launched_settled 22) ?_
    · intro state observation first second hfirst hsecond
      exact Option.some.inj (hfirst.symm.trans hsecond)
    · exact fun state observation after settled steps =>
        (WaitSsh.step_guard steps).settled_iff settled
  · intro s trace
    refine trace.always_iff_meets ?_ (Guard.launched_settled 23) ?_
    · intro state observation first second hfirst hsecond
      exact Option.some.inj (hfirst.symm.trans hsecond)
    · exact fun state observation after settled steps =>
        (WaitTelnet.step_guard steps).settled_iff settled

/-- A wait that may not restart the guest. -/
def patient : WaitConfig where
  maxRetries := 100
  maxRestarts := 1
  restartCb := false

/-- The `add` is lost after the `remove`, and the guard is done. -/
def halfRewritten : List Observation :=
  [.probed false, .detected (text "192.168.122.10") (.done []) .lost]

/-- The `add` is refused after the `remove`; then the expected address comes up. -/
def halfReverted : List Observation :=
  [.probed false,
    .detected (text "192.168.122.10") (.done [])
      (.refused (text "could not set up host forwarding rule")),
    .waited 0 0, .probed false, .detected SLIRP_EXPECTED_GUEST_IP .lost .lost]

/-- In both ways either loop ends up with no forward at all. -/
theorem guard_settles_not_half :
    ¬ (∀ observations s, Trace (WaitSsh.Next patient) (WaitSsh.start 0)
        observations s → s.guard.Settled) ∧
      ¬ ∀ observations s, Trace (WaitTelnet.Next patient) WaitTelnet.start
        observations s → s.guard.Settled := by
  constructor
  · intro settles
    have hrun : Trace (WaitSsh.Next patient) (WaitSsh.start 0) halfRewritten
        ⟨0, 0, 0, ⟨true, none, some (text "192.168.122.10")⟩, .waiting⟩ :=
      Trace.of_foldlM (by decide)
    obtain ⟨ip, -, hpoints⟩ := settles _ _ hrun rfl
    exact absurd hpoints.symm (Option.some_ne_none ip)
  · intro settles
    have hrun : Trace (WaitTelnet.Next patient) WaitTelnet.start halfReverted
        ⟨1, false, ⟨true, none, some SLIRP_EXPECTED_GUEST_IP⟩, .waiting⟩ :=
      Trace.of_foldlM (by decide)
    obtain ⟨ip, -, hpoints⟩ := settles _ _ hrun rfl
    exact absurd hpoints.symm (Option.some_ne_none ip)

end RiscosBuilder.Build
