import RiscosBuilder.Build.Environment

/-!
# The forward to the guest

`rewrite_hostfwd_target` of `build.py`, and the part of the waiting loops that
looks after the forward once the address of the guest is detected.
-/

namespace RiscosBuilder.Build

def SLIRP_PREFIX : Text := text "192.168.122."

def SLIRP_EXPECTED_GUEST_IP : Text := SLIRP_PREFIX ++ text "254"

/-- Where QEMU forwards the ssh port to. -/
structure Target where
  ip : Text
  port : Nat
  deriving DecidableEq, Repr

/--
How a monitor command fares: it does not reach the monitor, it takes effect, or
it is answered and leaves all as it was.
-/
inductive Reply where
  | lost
  | done (body : Text)
  | refused (body : Text)
  deriving DecidableEq, Repr

/-- What `qmon` returns. -/
def Reply.qmon : Reply → Option Text
  | .lost => none
  | .done body => some body
  | .refused body => some body

/-- The command has changed what it should. -/
def Reply.takesEffect : Reply → Bool
  | .done _ => true
  | _ => false

/--
`text.lower()` on the letters of ASCII; no other character becomes a letter of
the phrases that are looked for.
-/
def lower (body : Text) : Text :=
  body.map Char.toLower

/-- `not rem_ok`. -/
def removeFails (rem : Text) : Bool :=
  decide (text "Error" <:+: rem ∨ text "not found" <:+: lower rem)

/-- `not add_ok`. -/
def addFails (add : Text) : Bool :=
  decide (text "Error" <:+: add ∨ text "could not" <:+: lower add)

/-- What QEMU forwards to after `hostfwd_remove` and `hostfwd_add`. -/
def rewritten (forward : Option Target) (new : Target) (rem add : Reply) :
    Option Target :=
  if add.takesEffect then some new
  else if rem.takesEffect then none
  else forward

/-- `rewrite_hostfwd_target`: its result, which is all that its callers see. -/
def rewriteHostfwdTarget (rem add : Reply) : Bool :=
  !removeFails (rem.qmon.getD []) && !addFails (add.qmon.getD [])

/-- `guard_done`, with QEMU's forward and the address last detected since it started. -/
structure Guard where
  guardDone : Bool
  forward : Option Target
  detected : Option Text
  deriving DecidableEq, Repr

namespace Guard

/-- After a launch. -/
def launched (guestPort : Nat) : Guard where
  guardDone := false
  forward := some ⟨SLIRP_EXPECTED_GUEST_IP, guestPort⟩
  detected := none

/-- The statement `if not guard_done`; an empty address is none. -/
def detect (guestPort : Nat) (g : Guard) (actual : Text) (rem add : Reply) :
    Guard :=
  if g.guardDone then g
  else if actual = [] then g
  else if actual = SLIRP_EXPECTED_GUEST_IP then
    { g with guardDone := true, detected := some actual }
  else
    { guardDone := rewriteHostfwdTarget rem add
      forward := rewritten g.forward ⟨actual, guestPort⟩ rem add
      detected := some actual }

/-- QEMU forwards to the address. -/
def PointsAt (g : Guard) (ip : Text) : Prop :=
  g.forward.map Target.ip = some ip

instance (g : Guard) (ip : Text) : Decidable (g.PointsAt ip) :=
  inferInstanceAs (Decidable (_ = _))

/-- When the guard is done, QEMU forwards to the address last detected. -/
def Settled (g : Guard) : Prop :=
  g.guardDone = true → ∃ ip, g.detected = some ip ∧ g.PointsAt ip

/--
A detection that the guard may go by.  The expected address needs the forward
as it was at the launch.  Any other needs an `add` that takes effect, or a reply
that the code knows for an error, or a forward that is there already and stays.
-/
def Lands (g : Guard) (actual : Text) (rem add : Reply) : Prop :=
  if actual = SLIRP_EXPECTED_GUEST_IP then g.PointsAt actual
  else
    removeFails (rem.qmon.getD []) = true ∨ addFails (add.qmon.getD []) = true ∨
      add.takesEffect = true ∨ rem.takesEffect = false ∧ g.PointsAt actual

instance (g : Guard) (actual : Text) (rem add : Reply) :
    Decidable (g.Lands actual rem add) :=
  inferInstanceAs (Decidable (ite _ _ _))

theorem launched_settled (guestPort : Nat) : (launched guestPort).Settled :=
  fun done => absurd done Bool.false_ne_true

theorem rewritten_pointsAt {forward : Option Target} {new : Target}
    {rem add : Reply} :
    (rewritten forward new rem add).map Target.ip = some new.ip ↔
      add.takesEffect = true ∨
        rem.takesEffect = false ∧ forward.map Target.ip = some new.ip := by
  unfold rewritten
  cases add.takesEffect with
  | true => simp
  | false =>
      cases rem.takesEffect with
      | true => simp
      | false => simp

/-- A detection leaves the guard settled just if it can go by it. -/
theorem detect_settled_iff {guestPort : Nat} {g : Guard} (settled : g.Settled)
    {actual : Text} {rem add : Reply} :
    (g.detect guestPort actual rem add).Settled ↔
      (g.guardDone = false → actual ≠ [] → g.Lands actual rem add) := by
  unfold detect
  by_cases done : g.guardDone = true
  · rw [if_pos done]
    simp [settled, done]
  rw [if_neg done]
  by_cases none : actual = []
  · rw [if_pos none]
    simp [settled, none]
  rw [if_neg none]
  have hopen : g.guardDone = false := Bool.eq_false_iff.mpr done
  by_cases expected : actual = SLIRP_EXPECTED_GUEST_IP
  · rw [if_pos expected]
    simp only [Settled, Lands, if_pos expected, hopen, none, ne_eq,
      not_false_eq_true, forall_const, Option.some.injEq, exists_eq_left']
    exact Iff.rfl
  · rw [if_neg expected]
    simp only [Settled, PointsAt, Option.some.injEq, exists_eq_left',
      rewriteHostfwdTarget, Bool.and_eq_true, Bool.not_eq_true', Lands,
      if_neg expected, hopen, none, ne_eq, not_false_eq_true, forall_const]
    rw [@rewritten_pointsAt _ ⟨actual, guestPort⟩]
    cases removeFails (rem.qmon.getD []) <;>
      cases addFails (add.qmon.getD []) <;> simp

end Guard

end RiscosBuilder.Build
