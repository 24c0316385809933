import RiscosBuilder.Build.WaitForGuest
import RiscosBuilder.Library.Loop
import Mathlib.Algebra.Order.Group.Nat
import Mathlib.Tactic.Ring

/-!
# The wait for ssh ends

`_wait_ssh` of `build.py` with the calls that it makes.  Whatever these answer,
there are only so many of them, and a guest is killed only where its disk looks
dead.
-/

namespace RiscosBuilder.Build

open RiscosBuilder.Library

/-! ## The calls -/

/-- The calls of `_wait_ssh` that look at the guest or act on it. -/
inductive Call where
  | sshReadyCheck (ok : Bool)
  | detectGuestIp (actual : Text) (rem add : Reply)
  | lostInterruptCount (lines : Nat)
  | destroyVM
  | restartCb
  deriving DecidableEq, Repr

/-- `max_restarts`, for the text of `VM_SSH_MAX_RESTARTS` and Python's `int`. -/
def maxRestarts (int : Text → Option Int) (setting : Text) : Int :=
  if setting = [] then 1 else (int setting).getD 1

/-- Unset, empty or not an integer, `VM_SSH_MAX_RESTARTS` stands for one restart. -/
theorem maxRestarts_default {int : Text → Option Int} {setting : Text}
    (other : setting = [] ∨ int setting = none) : maxRestarts int setting = 1 := by
  unfold maxRestarts
  split
  · rfl
  · next given => rw [other.resolve_left given, Option.getD_none]

/-- What a restart calls. -/
def restartCalls (fresh : Nat) : List Call :=
  [.restartCb, .lostInterruptCount fresh]

/-- The calls of a step of `_wait_ssh`, in the branches of `WaitSsh.step`. -/
def WaitSsh.calls (config : WaitConfig) (s : WaitSsh) : Observation → List Call
  | .probed ok => [.sshReadyCheck ok]
  | .detected actual rem add =>
      if s.guard.guardDone then [] else [.detectGuestIp actual rem add]
  | .waited lost fresh =>
      (if s.guard.guardDone = false ∧ 6 ≤ s.retry then [.lostInterruptCount lost]
        else []) ++
      if s.Wedged lost then
        if config.restartCb = false ∨ config.maxRestarts ≤ s.restarts then []
        else .destroyVM :: restartCalls fresh
      else if config.maxRetries < (s.retry + 1 : Nat) then
        if config.maxRestarts ≤ s.restarts ∨ config.restartCb = false then []
        else restartCalls fresh
      else []

/-- What the calls answer in a step, if they are made. -/
structure Look where
  ok : Bool
  actual : Text
  rem : Reply
  add : Reply
  lost : Nat
  fresh : Nat

/-- What the loop learns of it where it is. -/
def Look.observe (look : Look) : Point → Option Observation
  | .probing => some (.probed look.ok)
  | .guarding => some (.detected look.actual look.rem look.add)
  | .waiting => some (.waited look.lost look.fresh)
  | .returned _ => none

/-- `_wait_ssh` under way, with the calls made so far. -/
structure SshRun where
  wait : WaitSsh
  calls : List Call
  looks : Nat

/-- Before the loop the lost interrupts are counted. -/
def SshRun.start (lostBase : Nat) : SshRun :=
  ⟨.start lostBase, [.lostInterruptCount lostBase], 0⟩

/-- The next step, if `_wait_ssh` has not returned. -/
def SshRun.turn (config : WaitConfig) (world : Nat → Look) (r : SshRun) :
    Option SshRun :=
  match (world r.looks).observe r.wait.point with
  | none => none
  | some observation =>
      (r.wait.step config observation).map fun after =>
        ⟨after, r.calls ++ r.wait.calls config observation, r.looks + 1⟩

/-! ## The account of the calls -/

/-- An address detected with these replies is settled. -/
def Settles (actual : Text) (rem add : Reply) : Prop :=
  actual ≠ [] ∧
    (actual = SLIRP_EXPECTED_GUEST_IP ∨ rewriteHostfwdTarget rem add = true)

instance (actual : Text) (rem add : Reply) : Decidable (Settles actual rem add) :=
  inferInstanceAs (Decidable (_ ∧ _))

/--
What the calls tell: of all of them the restarts, the probes and the last
probe; of those since the last restart the probes, whether an address was
settled, and the first and the last count of lost interrupts.
-/
structure Account where
  restarts : Nat
  probes : Nat
  lastProbe : Option Bool
  bootProbes : Nat
  settled : Bool
  base : Option Nat
  lost : Nat
  deriving DecidableEq, Repr

namespace Account

def empty : Account :=
  ⟨0, 0, none, 0, false, none, 0⟩

def add (a : Account) : Call → Account
  | .sshReadyCheck ok =>
      { a with
        probes := a.probes + 1
        lastProbe := some ok
        bootProbes := a.bootProbes + 1 }
  | .detectGuestIp actual rem add =>
      { a with settled := a.settled || decide (Settles actual rem add) }
  | .lostInterruptCount lines =>
      { a with base := some (a.base.getD lines), lost := lines }
  | .destroyVM => a
  | .restartCb =>
      { a with
        restarts := a.restarts + 1
        bootProbes := 0
        settled := false
        base := none
        lost := 0 }

/-- The account of some calls. -/
def of (calls : List Call) : Account :=
  calls.foldl add empty

/--
Since the last restart no address was settled, the guest was probed seven times,
and three more interrupts were lost than at its beginning.
-/
structure Wedged (a : Account) : Prop where
  unsettled : a.settled = false
  probed : 7 ≤ a.bootProbes
  storm : ∃ base, a.base = some base ∧ 3 ≤ (a.lost : Int) - base

end Account

/-- Whenever the guest is killed, it is wedged as far as the calls can tell. -/
def KillsWedged (calls : List Call) : Prop :=
  ∀ front, front ++ [.destroyVM] <+: calls → (Account.of front).Wedged

theorem Account.of_append (calls later : List Call) :
    Account.of (calls ++ later) = later.foldl Account.add (Account.of calls) :=
  List.foldl_append

theorem killsWedged_concat {calls : List Call} {call : Call} :
    KillsWedged (calls ++ [call]) ↔
      KillsWedged calls ∧ (call = .destroyVM → (Account.of calls).Wedged) := by
  simp only [KillsWedged, List.prefix_concat_iff]
  constructor
  · intro kills
    refine ⟨fun front early => kills front (Or.inr early), fun same => ?_⟩
    exact kills calls (Or.inl (same ▸ rfl))
  · rintro ⟨kills, last⟩ front (same | early)
    · obtain ⟨rfl, hlast⟩ := List.append_inj' same rfl
      exact last (List.singleton_inj.mp hlast).symm
    · exact kills front early

/-! ## The account tallies with the variables -/

/-- What the account says about the boot under way, by where the loop is. -/
def AtPoint (config : WaitConfig) (s : WaitSsh) (a : Account) : Prop :=
  match s.point with
  | .probing => a.bootProbes = s.retry ∧ s.retry ≤ config.maxRetries.toNat
  | .guarding | .waiting =>
      a.bootProbes = s.retry + 1 ∧ s.retry ≤ config.maxRetries.toNat ∧
        a.lastProbe = some false
  | .returned ready => a.lastProbe = some ready

/-- The variables of `_wait_ssh` are what the account says. -/
structure Tallies (config : WaitConfig) (s : WaitSsh) (a : Account) : Prop where
  restarts : a.restarts = s.restarts
  restarts_le : (s.restarts : Int) ≤ max 0 config.maxRestarts
  base : a.base = some s.lostBase
  settled : a.settled = s.guard.guardDone
  probes_le : a.probes ≤
    s.restarts * (config.maxRetries.toNat + 1) + a.bootProbes
  bootProbes_le : a.bootProbes ≤ config.maxRetries.toNat + 1
  point : AtPoint config s a

theorem detect_guardDone {guestPort : Nat} {g : Guard}
    (pending : g.guardDone = false) (actual : Text) (rem add : Reply) :
    (g.detect guestPort actual rem add).guardDone =
      decide (Settles actual rem add) := by
  simp only [Guard.detect, pending, Bool.false_eq_true, if_false, Settles]
  split_ifs with absent expected
  · simp [absent, pending]
  · simp [expected, expected ▸ absent]
  · simp [absent, expected]

namespace Tallies

variable {config : WaitConfig} {s : WaitSsh} {a : Account}

theorem start (config : WaitConfig) (lostBase : Nat) :
    Tallies config (.start lostBase) (.of [.lostInterruptCount lostBase]) where
  restarts := rfl
  restarts_le := Int.le_max_left _ _
  base := rfl
  settled := rfl
  probes_le := Nat.zero_le _
  bootProbes_le := Nat.zero_le _
  point := ⟨rfl, Nat.zero_le _⟩

theorem probed (tallies : Tallies config s a) (here : s.point = .probing)
    (ok : Bool) :
    Tallies config { s with point := if ok then .returned true else .guarding }
      (a.add (.sshReadyCheck ok)) := by
  have hpoint := tallies.point
  rw [AtPoint, here] at hpoint
  obtain ⟨hprobes, hretry⟩ := hpoint
  refine { tallies with
    probes_le := Nat.succ_le_succ tallies.probes_le
    bootProbes_le := ?_
    point := ?_ }
  · simp only [Account.add]
    omega
  · cases ok with
    | true => rfl
    | false => exact ⟨congrArg Nat.succ hprobes, hretry, rfl⟩

/-- An address is settled in the account when it is for the guard. -/
theorem detected (tallies : Tallies config s a) (here : s.point = .guarding)
    (pending : s.guard.guardDone = false) (actual : Text) (rem add : Reply) :
    Tallies config
      { s with guard := s.guard.detect 22 actual rem add, point := .waiting }
      (a.add (.detectGuestIp actual rem add)) := by
  have hpoint := tallies.point
  rw [AtPoint, here] at hpoint
  refine { tallies with settled := ?_, point := hpoint }
  rw [detect_guardDone pending, Account.add, tallies.settled, pending,
    Bool.false_or]

/-- Counting lost interrupts changes nothing else. -/
theorem counted (tallies : Tallies config s a) (lost : Nat) :
    Tallies config s (a.add (.lostInterruptCount lost)) :=
  { tallies with base := by rw [Account.add, tallies.base, Option.getD_some] }

/-- A restart begins a new boot, and may have used up the probes of the last. -/
theorem restarted (tallies : Tallies config s a)
    (may : (s.restarts : Int) < config.maxRestarts) (fresh : Nat) :
    Tallies config (s.restarted fresh) ((restartCalls fresh).foldl Account.add a) := by
  have hprobes := tallies.probes_le
  have hboot := tallies.bootProbes_le
  refine {
    restarts := congrArg Nat.succ tallies.restarts
    restarts_le := ?_
    base := rfl
    settled := rfl
    probes_le := ?_
    bootProbes_le := Nat.zero_le _
    point := ⟨rfl, Nat.zero_le _⟩ }
  · simp only [WaitSsh.restarted]
    omega
  · simp only [restartCalls, List.foldl_cons, List.foldl_nil, Account.add,
      WaitSsh.restarted, Nat.succ_mul]
    omega

/-- Another probe is to come. -/
theorem goesOn (tallies : Tallies config s a) (here : s.point = .waiting)
    (more : ¬ config.maxRetries < (s.retry + 1 : Nat)) :
    Tallies config { s with retry := s.retry + 1, point := .probing } a := by
  have hpoint := tallies.point
  rw [AtPoint, here] at hpoint
  exact { tallies with point := ⟨hpoint.1, by simp only; omega⟩ }

/-- The last probe has failed. -/
theorem givesUp (tallies : Tallies config s a) (here : s.point = .waiting)
    (retry : Nat) :
    Tallies config { s with retry, point := .returned false } a := by
  have hpoint := tallies.point
  rw [AtPoint, here] at hpoint
  exact { tallies with point := hpoint.2.2 }

/-- The cutoff is only taken when the account finds the guest wedged. -/
theorem wedged (tallies : Tallies config s a) (here : s.point = .waiting)
    {lost : Nat} (cutoff : s.Wedged lost) :
    (a.add (.lostInterruptCount lost)).Wedged := by
  have hpoint := tallies.point
  rw [AtPoint, here] at hpoint
  obtain ⟨hdone, hretry, hstorm⟩ := cutoff
  refine ⟨tallies.settled.trans hdone, ?_, s.lostBase, (tallies.counted lost).base,
    hstorm⟩
  simp only [Account.add]
  omega

end Tallies

/-! ## The kills -/

theorem killsWedged_nil : KillsWedged [] := by
  intro front early
  simp at early

/-- Calls that do not kill the guest can be made at any time. -/
theorem KillsWedged.append {calls later : List Call} (kills : KillsWedged calls)
    (spares : .destroyVM ∉ later) : KillsWedged (calls ++ later) := by
  induction later using List.reverseRecOn with
  | nil => rwa [List.append_nil]
  | append_singleton later call ih =>
      rw [List.mem_append, not_or] at spares
      rw [← List.append_assoc]
      refine killsWedged_concat.mpr ⟨ih spares.1, fun same => ?_⟩
      exact absurd (List.mem_singleton.mpr same.symm) spares.2

/-! ## A step -/

/-- What the calls made so far say tallies with the variables, and no kill was rash. -/
structure Accounted (config : WaitConfig) (s : WaitSsh) (calls : List Call) : Prop where
  tallies : Tallies config s (.of calls)
  kills : KillsWedged calls

namespace Accounted

variable {config : WaitConfig} {s : WaitSsh} {calls : List Call}

theorem counted (accounted : Accounted config s calls) (lost : Nat) :
    Accounted config s (calls ++ [.lostInterruptCount lost]) where
  tallies := by
    rw [Account.of_append]
    exact accounted.tallies.counted lost
  kills := accounted.kills.append (by simp)

theorem restarted (accounted : Accounted config s calls)
    (may : (s.restarts : Int) < config.maxRestarts) (fresh : Nat) :
    Accounted config (s.restarted fresh) (calls ++ restartCalls fresh) where
  tallies := by
    rw [Account.of_append]
    exact accounted.tallies.restarted may fresh
  kills := accounted.kills.append (by simp [restartCalls])

theorem killed (accounted : Accounted config s calls)
    (wedged : (Account.of calls).Wedged) :
    Accounted config s (calls ++ [.destroyVM]) where
  tallies := by
    rw [Account.of_append]
    exact accounted.tallies
  kills := killsWedged_concat.mpr ⟨accounted.kills, fun _ => wedged⟩

/-- The count behind a failed probe tells whether the guest is wedged. -/
theorem cutoff (accounted : Accounted config s calls) (here : s.point = .waiting)
    (lost : Nat) :
    Accounted config s (calls ++
        (if s.guard.guardDone = false ∧ 6 ≤ s.retry then
          [.lostInterruptCount lost] else [])) ∧
      (s.Wedged lost → (Account.of (calls ++
        (if s.guard.guardDone = false ∧ 6 ≤ s.retry then
          [.lostInterruptCount lost] else []))).Wedged) := by
  split_ifs with looks
  · refine ⟨accounted.counted lost, fun wedged => ?_⟩
    rw [Account.of_append]
    exact accounted.tallies.wedged here wedged
  · refine ⟨by rwa [List.append_nil], fun wedged => ?_⟩
    exact absurd ⟨wedged.1, wedged.2.1⟩ looks

/-- The end of a turn, in each of its branches. -/
theorem waited (accounted : Accounted config s calls) (here : s.point = .waiting)
    (lost fresh : Nat) :
    Accounted config (s.wait config lost fresh)
      (calls ++ s.calls config (.waited lost fresh)) := by
  obtain ⟨hcounted, hwedged⟩ := accounted.cutoff here lost
  simp only [WaitSsh.calls, WaitSsh.wait]
  rw [← List.append_assoc]
  generalize calls ++ (if s.guard.guardDone = false ∧ 6 ≤ s.retry then
    [Call.lostInterruptCount lost] else []) = before at hcounted hwedged ⊢
  split_ifs with wedged refused late refused'
  · rw [List.append_nil]
    exact ⟨hcounted.tallies.givesUp here s.retry, hcounted.kills⟩
  · have may : (s.restarts : Int) < config.maxRestarts := by
      rw [not_or] at refused
      omega
    rw [← List.singleton_append, ← List.append_assoc]
    exact (hcounted.killed (hwedged wedged)).restarted may fresh
  · rw [List.append_nil]
    exact ⟨hcounted.tallies.givesUp here (s.retry + 1), hcounted.kills⟩
  · have may : (s.restarts : Int) < config.maxRestarts := by
      rw [not_or] at refused'
      omega
    exact hcounted.restarted may fresh
  · rw [List.append_nil]
    exact ⟨hcounted.tallies.goesOn here late, hcounted.kills⟩

theorem step (accounted : Accounted config s calls) {observation : Observation}
    {after : WaitSsh} (steps : s.step config observation = some after) :
    Accounted config after (calls ++ s.calls config observation) := by
  rcases WaitSsh.step_cases steps with ⟨ok, rfl, here, rfl⟩ |
    ⟨actual, rem, add, rfl, here, rfl⟩ | ⟨lost, fresh, rfl, here, rfl⟩
  · refine ⟨?_, accounted.kills.append (by simp [WaitSsh.calls])⟩
    rw [Account.of_append]
    exact accounted.tallies.probed here ok
  · cases pending : s.guard.guardDone with
    | true =>
        have hsame : s.guard.detect 22 actual rem add = s.guard := by
          rw [Guard.detect, if_pos pending]
        have hpoint := accounted.tallies.point
        rw [AtPoint, here] at hpoint
        simp only [WaitSsh.calls, pending, if_true, List.append_nil, hsame]
        exact ⟨{ accounted.tallies with point := hpoint }, accounted.kills⟩
    | false =>
        simp only [WaitSsh.calls, pending, Bool.false_eq_true, if_false]
        refine ⟨?_, accounted.kills.append (by simp)⟩
        rw [Account.of_append]
        exact accounted.tallies.detected here pending actual rem add
  · exact accounted.waited here lost fresh

end Accounted

/-! ## A run -/

namespace SshRun

variable {config : WaitConfig} {world : Nat → Look} {r : SshRun}

/-- A turn is a step. -/
theorem turn_eq_some {next : SshRun} (turns : r.turn config world = some next) :
    ∃ observation, r.wait.step config observation = some next.wait ∧
      next.calls = r.calls ++ r.wait.calls config observation := by
  unfold turn at turns
  split at turns
  · cases turns
  · next observation _ =>
      obtain ⟨after, steps, rfl⟩ := Option.map_eq_some_iff.mp turns
      exact ⟨observation, steps, rfl⟩

/-- There is always a turn to take until the wait has returned. -/
theorem turn_eq_none (stops : r.turn config world = none) :
    ∃ ready, r.wait.point = .returned ready := by
  unfold turn at stops
  cases here : r.wait.point with
  | probing => simp [here, Look.observe, WaitSsh.step] at stops
  | guarding => simp [here, Look.observe, WaitSsh.step] at stops
  | waiting => simp [here, Look.observe, WaitSsh.step] at stops
  | returned ready => exact ⟨ready, rfl⟩

/-- The turns that there may still be: a restart gives back all probes but counts more. -/
def left (config : WaitConfig) (r : SshRun) : Nat :=
  let probes := (config.maxRestarts.toNat - r.wait.restarts) *
    (config.maxRetries.toNat + 1) + (config.maxRetries.toNat + 1 - r.wait.retry)
  match r.wait.point with
  | .probing => 3 * probes + 3
  | .guarding => 3 * probes + 2
  | .waiting => 3 * probes + 1
  | .returned _ => 0

theorem turn_left (accounted : Accounted config r.wait r.calls) {next : SshRun}
    (turns : r.turn config world = some next) :
    next.left config < r.left config := by
  obtain ⟨observation, steps, -⟩ := turn_eq_some turns
  have hpoint := accounted.tallies.point
  rcases WaitSsh.step_cases steps with ⟨ok, -, here, after⟩ |
    ⟨actual, rem, add, -, here, after⟩ | ⟨lost, fresh, -, here, after⟩
  · cases ok with
    | true => simp [left, here, after]
    | false => simp [left, here, after]
  · simp [left, here, after]
  · rw [AtPoint, here] at hpoint
    have hretry := hpoint.2.1
    rcases r.wait.wait_cases config lost fresh
      with ⟨retry, ends⟩ | ⟨may, ends⟩ | ends
    · simp [left, here, after, ends]
    · -- The probes of a whole boot come back, for one restart less.
      obtain ⟨others, hothers⟩ := Nat.exists_eq_add_of_lt
        (show r.wait.restarts < config.maxRestarts.toNat by omega)
      have hless : config.maxRestarts.toNat - r.wait.restarts = others + 1 := by
        omega
      have hnext : config.maxRestarts.toNat - (r.wait.restarts + 1) = others := by
        omega
      simp only [left, here, after, ends, WaitSsh.restarted, hless, hnext,
        Nat.succ_mul]
      omega
    · simp only [left, here, after, ends]
      omega

theorem turn_accounted (accounted : Accounted config r.wait r.calls) {next : SshRun}
    (turns : r.turn config world = some next) :
    Accounted config next.wait next.calls := by
  obtain ⟨observation, steps, hcalls⟩ := turn_eq_some turns
  rw [hcalls]
  exact accounted.step steps

theorem start_accounted (config : WaitConfig) (lostBase : Nat) :
    Accounted config (start lostBase).wait (start lostBase).calls where
  tallies := .start config lostBase
  kills := (@killsWedged_concat [] _).mpr ⟨killsWedged_nil, by simp⟩

end SshRun

/-- The arguments of `_wait_ssh`, and the setting it reads. -/
def sshConfig (int : Text → Option Int) (setting : Text) (maxRetries : Int)
    (restartCb : Bool) : WaitConfig :=
  ⟨maxRetries, maxRestarts int setting, restartCb⟩

/--
Whatever its calls answer, `_wait_ssh` returns.  It returns `True` just if the
last probe has succeeded, after no more restarts than it may make and no more
probes than a full number for each boot, and it never kills a guest that is not
wedged.
-/
theorem wait_ssh_bounded (int : Text → Option Int) (setting : Text)
    {maxRetries : Int} (retries : 0 ≤ maxRetries) (restartCb : Bool)
    (lostBase : Nat) (world : Nat → Look) :
    ∃ last ready,
      Loop.run (SshRun.turn (sshConfig int setting maxRetries restartCb) world)
        ((SshRun.start lostBase).left (sshConfig int setting maxRetries restartCb))
        (.start lostBase) = some last ∧
      last.wait.point = .returned ready ∧
      (ready = true ↔ (Account.of last.calls).lastProbe = some true) ∧
      ((Account.of last.calls).restarts : Int) ≤ max 0 (maxRestarts int setting) ∧
      ((Account.of last.calls).probes : Int) ≤
        ((Account.of last.calls).restarts + 1) * (maxRetries + 1) ∧
      KillsWedged last.calls := by
  generalize hconfig : sshConfig int setting maxRetries restartCb = config
  have hretries : (config.maxRetries.toNat : Int) = maxRetries := by
    rw [← hconfig]
    exact Int.toNat_of_nonneg retries
  have hrestarts : config.maxRestarts = maxRestarts int setting := by
    rw [← hconfig]
    rfl
  obtain ⟨last, hrun⟩ := Loop.run_stops (SshRun.left config)
    (fun r next accounted turns =>
      ⟨SshRun.turn_accounted accounted turns, SshRun.turn_left accounted turns⟩)
    (SshRun.start_accounted config lostBase) (le_refl _)
  obtain ⟨⟨tallies, kills⟩, stops⟩ := Loop.run_invariant
    (fun r next accounted turns => SshRun.turn_accounted accounted turns)
    (SshRun.start_accounted config lostBase) hrun
  obtain ⟨ready, here⟩ := SshRun.turn_eq_none stops
  have hlast : (Account.of last.calls).lastProbe = some ready := by
    have hpoint := tallies.point
    rwa [AtPoint, here] at hpoint
  refine ⟨last, ready, hrun, here, by simp [hlast], ?_, ?_, kills⟩
  · rw [tallies.restarts, ← hrestarts]
    exact tallies.restarts_le
  · have hprobes := tallies.probes_le
    have hboot := tallies.bootProbes_le
    have hall : (Account.of last.calls).probes ≤
        ((Account.of last.calls).restarts + 1) * (config.maxRetries.toNat + 1) := by
      rw [tallies.restarts, Nat.succ_mul]
      omega
    rw [← hretries]
    exact_mod_cast hall

/-- `int` on the texts `1` and `2`. -/
def smallInt (setting : Text) : Option Int :=
  if setting = text "1" then some 1
  else if setting = text "2" then some 2
  else none

/-- A guest that never answers, and loses interrupts. -/
def deadGuest (looks : Nat) : Look where
  ok := false
  actual := []
  rem := .lost
  add := .lost
  lost := looks
  fresh := looks

/-- Two restarts are allowed. -/
theorem wait_ssh_bounded_dead :
    ∃ last ready,
      Loop.run (SshRun.turn (sshConfig smallInt (text "2") 9 true) deadGuest)
        ((SshRun.start 0).left (sshConfig smallInt (text "2") 9 true))
        (.start 0) = some last ∧
      last.wait.point = .returned ready ∧
      (ready = true ↔ (Account.of last.calls).lastProbe = some true) ∧
      ((Account.of last.calls).restarts : Int) ≤
        max 0 (maxRestarts smallInt (text "2")) ∧
      ((Account.of last.calls).probes : Int) ≤
        ((Account.of last.calls).restarts + 1) * (9 + 1) ∧
      KillsWedged last.calls :=
  wait_ssh_bounded smallInt (text "2") (by decide) true 0 deadGuest

example : (Loop.run
    (SshRun.turn (sshConfig smallInt (text "2") 9 true) deadGuest) 99
    (.start 0)).map (fun last => (last.wait.point, Account.of last.calls)) =
      some (.returned false, ⟨2, 21, some false, 7, false, some 41, 62⟩) := by
  decide +kernel

end RiscosBuilder.Build
