import RiscosBuilder.Build.Main

/-!
# What a build has shown

A watch over the calls of `main`: what they have answered so far, when a disk may
be exported, and how often QEMU may be launched; and the parts of a build under
this watch.
-/

namespace RiscosBuilder.Build

open RiscosBuilder.Library

/--
What a build has shown so far.  `up` is a QEMU that has been launched and since
then neither been seen gone nor been killed; `booted` and what is said of the
guest are about the last launch, and not about one before the export.
-/
structure Shown where
  disk : Bool
  up : Bool
  booted : Bool
  answered : Bool
  hooks : Bool
  installed : Bool
  extra : Bool
  keys : Bool
  sendEnv : Bool
  rsync : Bool
  exports : Nat
  boots : Nat
  deriving DecidableEq, Repr

namespace Shown

/-- Nothing has been asked yet. -/
def start : Shown where
  disk := false
  up := false
  booted := false
  answered := false
  hooks := true
  installed := false
  extra := false
  keys := true
  sendEnv := false
  rsync := false
  exports := 0
  boots := 0

/-- `authorized_keys` ends in a line end, or the guest could not be asked. -/
def keysStand (r : Completed) : Bool :=
  if r.returncode = 0 then decide (r.stdout.getLast? = some 0x0a)
  else decide (r.returncode = 124 ∨ r.returncode = 255)

/-- QEMU is launched with the disk, and the guest has yet to be asked. -/
def launched (t : Shown) (rc : Int) : Shown :=
  { t with
    up := true
    booted := decide (rc = 0)
    answered := false
    sendEnv := false
    rsync := false
    boots := t.boots + 1 }

/-- What an answer shows. -/
def add (py : Python) (t : Shown) : (act : Act) → act.Reply → Shown
  | .createVM _ _ _, rc => { t.launched rc with disk := decide (rc = (0 : Int)) }
  | .createVMFromVHD _, _ => { t with disk := true }
  | .launchQemu, rc => t.launched rc
  | .pidAlive, alive => { t with up := t.up && alive }
  | .killQemu, _ => { t with up := false }
  | .sshReadyCheck, ok => { t with answered := t.answered || ok }
  | .telnetReadyCheck, ok => { t with answered := t.answered || ok }
  | .hostShell _, rc => { t with hooks := t.hooks && decide (rc = (0 : Int)) }
  | .sshInstall _, rc =>
      { t with
        installed := decide (rc = (0 : Int))
        answered := t.answered || decide (rc = (0 : Int)) }
  | .sshExtra _, rc => { t with extra := decide (rc = (0 : Int)) }
  | .authorizedKeys, r => { t with keys := keysStand r }
  | .sshEnv, stdout =>
      { t with sendEnv :=
          decide ((text "GITHUB_").map (fun c => UInt8.ofNat c.toNat) <:+: stdout) }
  | .rsyncVersion, rv =>
      { t with
        rsync := decide (rv.returncode = 0 ∧ strip (py.decode rv.stdout) ≠ []) }
  | .exportDisk _ _, _ =>
      { t with
        booted := false
        answered := false
        sendEnv := false
        rsync := false
        exports := t.exports + 1 }
  | _, _ => t

/--
A disk is fit to be exported when it was made, the guest on it has answered since
its last boot and is down, every script that the conf asks for has succeeded, no
host hook has failed, and the keys are in order; and it is exported once.
-/
structure Fit (set : Setting → Text) (t : Shown) : Prop where
  disk : t.disk = true
  down : t.up = false
  answered : t.answered = true
  hooks : t.hooks = true
  installed : set .VM_PRE_INSTALL_PKGS ≠ [] → t.installed = true
  extra : set .VM_EXTRA_SCRIPT ≠ [] → t.extra = true
  keys : t.keys = true
  once : t.exports = 0

/--
A build that passes has exported its disk, has booted and used the exported disk
where the conf names a package to look for, and leaves no QEMU behind.
-/
structure Passed (set : Setting → Text) (t : Shown) : Prop where
  exported : t.exports = 1
  down : t.up = false
  booted : set .VM_RSYNC_PKG ≠ [] ∨ set .VM_SSHFS_PKG ≠ [] → t.booted = true
  answered : set .VM_RSYNC_PKG ≠ [] ∨ set .VM_SSHFS_PKG ≠ [] →
    t.answered = true ∧ t.sendEnv = true
  rsync : set .VM_RSYNC_PKG ≠ [] → t.rsync = true

/-- What a history of `main` has shown. -/
def of (py : Python) : List (Answered Act.Reply) → Shown :=
  Program.seen (add py) start

/-- Up to `n` boots, which change nothing that is shown of the disk. -/
structure Reboots (n : Nat) (t after : Shown) : Prop where
  boots : after.boots ≤ t.boots + n
  disk : after.disk = t.disk
  hooks : after.hooks = t.hooks
  installed : after.installed = t.installed
  extra : after.extra = t.extra
  keys : after.keys = t.keys
  exports : after.exports = t.exports

theorem Reboots.refl (t : Shown) : Reboots 0 t t :=
  ⟨Nat.le_refl _, rfl, rfl, rfl, rfl, rfl, rfl⟩

theorem Reboots.mono {n m : Nat} {t after : Shown} (reboots : Reboots n t after)
    (le : n ≤ m) : Reboots m t after :=
  { reboots with boots := reboots.boots.trans (by omega) }

theorem Reboots.trans {n m : Nat} {t middle after : Shown} (first : Reboots n t middle)
    (second : Reboots m middle after) : Reboots (n + m) t after where
  boots := by
    have hfirst := first.boots
    have hsecond := second.boots
    omega
  disk := second.disk.trans first.disk
  hooks := second.hooks.trans first.hooks
  installed := second.installed.trans first.installed
  extra := second.extra.trans first.extra
  keys := second.keys.trans first.keys
  exports := second.exports.trans first.exports

theorem Reboots.launched (t : Shown) (rc : Int) (up : Bool) :
    Reboots 1 t { t.launched rc with up := up } :=
  ⟨Nat.le_refl _, rfl, rfl, rfl, rfl, rfl, rfl⟩

end Shown

/-- Disks are exported when they are fit, and QEMU is launched so often at most. -/
def release (py : Python) (set : Setting → Text) (limit : Nat) :
    Program.Watch Act.Reply Shown where
  allows t
    | .exportDisk _ _ => t.Fit set
    | .createVM _ _ _ => t.boots < limit
    | .launchQemu => t.boots < limit
    | _ => True
  after := Shown.add py

/-! ## Small parts -/

section Parts

variable {py : Python} {conf : Conf} {set : Setting → Text} {limit : Nat} {t : Shown}

/-- A call, and the rest of the program with its answer. -/
theorem wp_ask_bind {α : Type} {act : Act} {f : act.Reply → Prog α}
    {Q : α → Shown → Prop} :
    (ask act >>= f).wp (release py set limit) Q t ↔
      (release py set limit).allows t act ∧
        ∀ reply, (f reply).wp (release py set limit) Q (t.add py act reply) :=
  Program.wp_bind.trans Iff.rfl

/-- A call that shows nothing. -/
theorem wp_quiet {α : Type} {act : Act} {f : act.Reply → Prog α}
    {Q : α → Shown → Prop} (quiet : ∀ reply, t.add py act reply = t)
    (allowed : (release py set limit).allows t act)
    (h : ∀ reply, (f reply).wp (release py set limit) Q t) :
    (ask act >>= f).wp (release py set limit) Q t :=
  wp_ask_bind.mpr ⟨allowed, fun reply => (quiet reply).symm ▸ h reply⟩

theorem perform_spec (effects : List Effect) {Q : Unit → Shown → Prop}
    (h : Q () t) : (perform effects).wp (release py set limit) Q t := by
  induction effects with
  | nil => exact h
  | cons effect effects ih => exact ⟨trivial, fun _ => ih⟩

theorem inputCmd_spec (keys : Text) {Q : Unit → Shown → Prop} (h : Q () t) :
    (inputCmd conf keys).wp (release py set limit) Q t :=
  perform_spec _ h

theorem readInt_spec (value : Text) (default : Int) {Q : Int → Shown → Prop}
    (h : ∀ n, Q n t) : (readInt py value default).wp (release py set limit) Q t := by
  unfold readInt
  split
  · exact h default
  · split
    · next seconds _ => exact h seconds
    · exact trivial

theorem startVM_spec {Q : Int → Shown → Prop} (room : t.boots < limit)
    (absent : conf.osname = [] → Q 1 t)
    (h : ∀ rc, conf.osname ≠ [] → Q rc (t.launched rc)) :
    (startVM conf).wp (release py set limit) Q t := by
  unfold startVM
  split
  · next unnamed => exact absent unnamed
  · next named => exact ⟨room, fun rc => h rc named⟩

theorem shutdownVM_spec {Q : Int → Shown → Prop} (h : ∀ rc, Q rc t) :
    (shutdownVM conf).wp (release py set limit) Q t := by
  unfold shutdownVM
  split
  · exact h 1
  · exact ⟨trivial, fun _ => h 0⟩

theorem destroyVM_spec (named : conf.osname ≠ []) {Q : Int → Shown → Prop}
    (h : Q 0 { t with up := false }) :
    (destroyVM conf).wp (release py set limit) Q t := by
  rw [destroyVM, if_neg named]
  exact ⟨trivial, fun _ => h⟩

theorem isRunning_spec (named : conf.osname ≠ []) {Q : Int → Shown → Prop}
    (running : Q 0 t) (gone : Q 1 { t with up := false }) :
    (isRunning conf).wp (release py set limit) Q t := by
  rw [isRunning, if_neg named]
  refine wp_ask_bind.mpr ⟨trivial, fun alive => ?_⟩
  cases alive with
  | true =>
      have hsame : t.add py .pidAlive true = t := by
        simp [Shown.add]
      rw [hsame]
      exact running
  | false =>
      have hgone : t.add py .pidAlive false = { t with up := false } := by
        simp [Shown.add]
      rw [hgone]
      exact gone

/-- However the wait ends, QEMU is gone. -/
theorem waitVmDown_spec (named : conf.osname ≠ []) (poll : Nat) (maxSeconds : Int)
    {Q : Unit → Shown → Prop} (h : Q () { t with up := false }) :
    (waitVmDownProg conf poll maxSeconds).wp (release py set limit) Q t := by
  refine Program.wp_forever (fun _ after => after = t) rfl ?_
  rintro s after rfl
  refine Program.wp_bind.mpr (isRunning_spec named ?_ h)
  refine wp_ask_bind.mpr ⟨trivial, fun seen => ?_⟩
  cases downTurn conf.env poll maxSeconds s seen with
  | goesOn next => exact rfl
  | destroys elapsed => exact Program.wp_bind.mpr (destroyVM_spec named h)

theorem sshReady_spec {Q : Bool → Shown → Prop} (absent : conf.osname = [] → Q false t)
    (h : ∀ ok, Q ok { t with answered := t.answered || ok }) :
    (sshReady conf).wp (release py set limit) Q t := by
  unfold sshReady
  split
  · next unnamed => exact absent unnamed
  · exact ⟨trivial, h⟩

/-! ## Hooks -/

theorem runHostHook_spec (name : Text) {Q : Bool → Shown → Prop}
    (h : ∀ ran, Q ran t) :
    (runHostHook name).wp (release py set limit) Q t := by
  unfold runHostHook
  refine wp_quiet (fun _ => rfl) trivial fun python => ?_
  cases python with
  | true => exact wp_quiet (fun _ => rfl) trivial fun _ => h true
  | false =>
      refine wp_quiet (fun _ => rfl) trivial fun shell => ?_
      cases shell with
      | false => exact h false
      | true =>
          refine wp_ask_bind.mpr ⟨trivial, fun rc => ?_⟩
          by_cases passed : rc = (0 : Int)
          · have hsame : t.add py (.hostShell _) rc = t := by
              simp only [Shown.add, passed, decide_true, Bool.and_true]
            rw [hsame, if_neg (not_not_intro passed)]
            exact h true
          · rw [if_pos passed]
            exact trivial

/-- A hook that returns leaves things as they are. -/
theorem runHook_spec (name : Text) {Q : Bool → Shown → Prop}
    (h : ∀ ran, Q ran t) :
    (runHook name).wp (release py set limit) Q t := by
  unfold runHook
  refine wp_quiet (fun _ => rfl) trivial fun guest => ?_
  cases guest with
  | true =>
      refine wp_quiet (fun _ => rfl) trivial fun _ => ?_
      exact Program.wp_bind.mpr (runHostHook_spec name fun host => h _)
  | false => exact Program.wp_bind.mpr (runHostHook_spec name fun host => h _)

/-! ## The screen and the answer file -/

theorem waitForText_spec (goal sec : Text) {Q : Int → Shown → Prop}
    (h : ∀ rc, Q rc t) :
    (waitForText py conf goal sec).wp (release py set limit) Q t := by
  unfold waitForText
  split
  · exact h 1
  split
  · exact h 1
  have hloop : ∀ deadline, (Program.forever
      (fun _ => waitForTextTurn goal deadline) ()).wp (release py set limit) Q t := by
    intro deadline
    refine Program.wp_forever (fun _ after => after = t) rfl ?_
    rintro ⟨⟩ after rfl
    have hscreen : (do
        let screen ← ask .screenTextValue
        if goal <:+: screen then pure (.inr 0)
        else pure (.inl ()) : Prog (Unit ⊕ Int)).wp (release py set limit)
          (fun out t => out.elim (fun _ => t = after) (fun rc => Q rc t)) after := by
      refine wp_quiet (fun _ => rfl) trivial fun screen => ?_
      split
      · exact h 0
      · exact rfl
    cases deadline with
    | none => exact hscreen
    | some deadline =>
        refine Program.wp_bind.mpr (wp_quiet (fun _ => rfl) trivial fun now => ?_)
        cases decide (deadline ≤ now) with
        | true => exact h 1
        | false => exact hscreen
  unfold deadlineAfter
  split
  · exact hloop none
  · refine Program.wp_bind.mpr (wp_quiet (fun _ => rfl) trivial fun now => ?_)
    split
    · next seconds _ => exact hloop (some (now + seconds))
    · exact trivial

theorem processAnswers_spec (answers : List Answer) {Q : Int → Shown → Prop}
    (h : ∀ rc, Q rc t) :
    (processAnswers py conf answers).wp (release py set limit) Q t := by
  induction answers with
  | nil => exact h 0
  | cons answer answers ih =>
      refine Program.wp_bind.mpr (waitForText_spec _ _ fun rc => ?_)
      split
      · exact h 1
      · exact Program.wp_bind.mpr (inputCmd_spec _ ih)

theorem processOpts_spec (optsfile : Text) {Q : Int → Shown → Prop}
    (h : ∀ rc, Q rc t) :
    (processOpts py conf optsfile).wp (release py set limit) Q t := by
  unfold processOpts
  split
  · exact h 1
  split
  · exact h 1
  · exact wp_quiet (fun _ => rfl) trivial fun lines => processAnswers_spec _ h

/-! ## Starting the guest and shutting it down -/

theorem tryBoot_spec (named : conf.osname ≠ []) (lmax : Text)
    {Q : Bool → Shown → Prop} (h : ∀ ok up, Q ok { t with up := up }) :
    (tryBoot py conf lmax).wp (release py set limit) Q t := by
  refine wp_quiet (fun _ => rfl) trivial fun _ => ?_
  refine Program.wp_bind.mpr (runHook_spec _ fun ran => ?_)
  cases ran with
  | true => exact h true t.up
  | false =>
      refine Program.wp_bind.mpr (waitForText_spec _ _ fun rc => ?_)
      refine wp_quiet (fun _ => rfl) trivial fun screen => ?_
      split
      · exact h true t.up
      · refine wp_quiet (fun _ => rfl) trivial fun _ => ?_
        exact Program.wp_bind.mpr (destroyVM_spec named (h false false))

theorem startAttempts_spec (named : conf.osname ≠ []) (lmax : Text) (attempts : Nat)
    (room : t.boots + attempts ≤ limit) {Q : Int → Shown → Prop}
    (h : ∀ rc after, t.Reboots attempts after → Q rc after) :
    (startAttempts py conf lmax attempts).wp (release py set limit) Q t := by
  induction attempts generalizing t with
  | zero => exact h 1 t (.refl t)
  | succ attempts ih =>
      refine Program.wp_bind.mpr (startVM_spec (by omega)
        (fun unnamed => absurd unnamed named) fun rc _ => ?_)
      have hbooted := Shown.Reboots.launched t rc
      split
      · exact h 1 _ ((hbooted true).mono (by omega))
      · refine Program.wp_bind.mpr (tryBoot_spec named lmax fun ok up => ?_)
        cases ok with
        | true => exact h 0 _ ((hbooted up).mono (by omega))
        | false =>
            have hroom : t.boots + 1 + attempts ≤ limit := by omega
            refine ih hroom fun rc after reboots => ?_
            exact h rc after (((hbooted up).trans reboots).mono (by omega))

theorem startAndWait_spec (room : t.boots + 2 ≤ limit) {Q : Int → Shown → Prop}
    (absent : conf.osname = [] → Q 1 t)
    (h : ∀ rc after, conf.osname ≠ [] → t.Reboots 2 after → Q rc after) :
    (startAndWait py conf).wp (release py set limit) Q t := by
  unfold startAndWait
  split
  · next unnamed => exact absent unnamed
  · next named =>
      refine Program.wp_bind.mpr (readInt_spec _ _ fun lmax => ?_)
      exact startAttempts_spec named _ 2 room fun rc after => h rc after named

theorem awaitShutdown_spec (named : conf.osname ≠ []) {Q : Unit → Shown → Prop}
    (h : Q () { t with up := false }) :
    (awaitShutdown py conf).wp (release py set limit) Q t := by
  have hrest : ∀ up, (do
      let smax ← readInt py (conf.set .VM_SHUTDOWN_MAX_SECONDS) 600
      waitVmDownProg conf 5 smax
      ask .closeConsole : Prog Unit).wp (release py set limit) Q
        { t with up := up } := by
    intro up
    refine Program.wp_bind.mpr (readInt_spec _ _ fun smax => ?_)
    refine Program.wp_bind.mpr (waitVmDown_spec named _ _ ?_)
    exact ⟨trivial, fun _ => h⟩
  refine Program.wp_bind.mpr (Program.wp_bind.mpr (isRunning_spec named ?_ ?_))
  · exact Program.wp_bind.mpr (shutdownVM_spec fun _ => hrest t.up)
  · exact hrest false

theorem shutdownAndWait_spec (named : conf.osname ≠ []) {Q : Unit → Shown → Prop}
    (h : Q () { t with up := false }) :
    (shutdownAndWait py conf).wp (release py set limit) Q t := by
  rw [shutdownAndWait, if_neg named]
  split
  · exact wp_quiet (fun _ => rfl) trivial fun _ => awaitShutdown_spec named h
  · exact wp_quiet (fun _ => rfl) trivial fun _ => awaitShutdown_spec named h

theorem restartAndWait_spec (named : conf.osname ≠ []) (room : t.boots + 2 ≤ limit)
    {Q : Int → Shown → Prop} (h : ∀ rc after, t.Reboots 2 after → Q rc after) :
    (restartAndWait py conf).wp (release py set limit) Q t := by
  refine Program.wp_bind.mpr (shutdownAndWait_spec named ?_)
  refine startAndWait_spec (t := { t with up := false }) room
    (fun unnamed => absurd unnamed named) ?_
  exact fun rc after _ reboots => h rc after { reboots with }

/-! ## Waiting for the guest -/

theorem lookAfter_spec (guestPort : Nat) (g : Guard) {Q : Guard → Shown → Prop}
    (h : ∀ g, Q g t) : (lookAfter guestPort g).wp (release py set limit) Q t := by
  unfold lookAfter
  split
  · exact h g
  · exact wp_quiet (fun _ => rfl) trivial fun _ => h _

/-- What a `restart_cb` does: it boots the guest, twice at most. -/
def Restarts (py : Python) (set : Setting → Text) (limit : Nat)
    (restartCb : Prog Unit) : Prop :=
  ∀ (t : Shown) (Q : Unit → Shown → Prop), t.boots + 2 ≤ limit →
    (∀ after, t.Reboots 2 after → Q () after) →
    restartCb.wp (release py set limit) Q t

section Loops

variable {m : Nat} {start : Shown}

theorem restartSsh_spec {maxRestarts : Int} {restartCb : Option (Prog Unit)}
    (boots : ∀ cb ∈ restartCb, Restarts py set limit cb ∧ maxRestarts ≤ m)
    {s : WaitSsh} (reboots : start.Reboots (2 * s.restarts) t)
    (room : start.boots + 2 * m ≤ limit) {kill : Prog Unit}
    (kills : ∀ Q : Unit → Shown → Prop, (∀ up, Q () { t with up := up }) →
      kill.wp (release py set limit) Q t)
    {Q : WaitSsh ⊕ Bool → Shown → Prop}
    (h : ∀ next after, next.restarts ≤ m →
      start.Reboots (2 * next.restarts) after → Q (.inl next) after)
    (fails : Q (.inr false) t) :
    (restartSsh maxRestarts restartCb s kill).wp (release py set limit) Q t := by
  cases restartCb with
  | none => exact fails
  | some cb =>
      obtain ⟨hcb, hmost⟩ := boots cb rfl
      simp only [restartSsh]
      split
      · exact fails
      · refine Program.wp_bind.mpr (kills _ fun up => ?_)
        have hgone : start.Reboots (2 * s.restarts) { t with up := up } :=
          { reboots with }
        have hboots := hgone.boots
        refine Program.wp_bind.mpr (hcb _ _ (by omega) fun after again => ?_)
        refine wp_quiet (fun _ => rfl) trivial fun fresh => ?_
        refine h (s.restarted fresh) after ?_ (hgone.trans again)
        simp only [WaitSsh.restarted]
        omega

/-- A turn of `_wait_ssh` in which the guest does not answer. -/
theorem waitSshRest_spec (named : conf.osname ≠ []) {maxRetries maxRestarts : Int}
    {restartCb : Option (Prog Unit)}
    (boots : ∀ cb ∈ restartCb, Restarts py set limit cb ∧ maxRestarts ≤ m)
    {s : WaitSsh} (most : s.restarts ≤ m)
    (reboots : start.Reboots (2 * s.restarts) t)
    (room : start.boots + 2 * m ≤ limit) {Q : WaitSsh ⊕ Bool → Shown → Prop}
    (h : ∀ next after, next.restarts ≤ m →
      start.Reboots (2 * next.restarts) after → Q (.inl next) after)
    (fails : Q (.inr false) t) :
    (waitSshRest conf maxRetries maxRestarts restartCb s).wp (release py set limit)
      Q t := by
  refine Program.wp_bind.mpr ?_
  have hrest : ∀ lost : Nat, (if s.Wedged lost then
        restartSsh maxRestarts restartCb s do
          let _ ← destroyVM conf
      else if maxRetries < (s.retry + 1 : Nat) then
        restartSsh maxRestarts restartCb s (pure ())
      else pure (.inl { s with retry := s.retry + 1 }) :
        Prog (WaitSsh ⊕ Bool)).wp (release py set limit) Q t := by
    intro lost
    split_ifs
    · refine restartSsh_spec boots reboots room (fun Q h => ?_) h fails
      exact Program.wp_bind.mpr (destroyVM_spec named (h false))
    · refine restartSsh_spec boots reboots room (fun Q h => ?_) h fails
      exact h t.up
    · exact h _ t most reboots
  unfold countLost
  split
  · exact ⟨trivial, hrest⟩
  · exact hrest 0

theorem waitSsh_spec (named : conf.osname ≠ []) {restartCb : Option (Prog Unit)}
    (boots : ∀ cb ∈ restartCb, Restarts py set limit cb ∧
      maxRestarts py.int (conf.set .VM_SSH_MAX_RESTARTS) ≤ m)
    (room : t.boots + 2 * m ≤ limit) {Q : Bool → Shown → Prop}
    (h : ∀ ok after, t.Reboots (2 * m) after →
      (ok = true → after.answered = true) → Q ok after) :
    (waitSshProg py conf restartCb).wp (release py set limit) Q t := by
  refine wp_quiet (fun _ => rfl) trivial fun lostBase => ?_
  refine Program.wp_forever
    (fun s after => s.restarts ≤ m ∧ t.Reboots (2 * s.restarts) after)
    ⟨Nat.zero_le _, .refl t⟩ ?_
  rintro s after ⟨most, reboots⟩
  have hfails : ∀ next, t.Reboots (2 * s.restarts) next →
      Q false next := fun next again => h false next (again.mono (by omega)) (by simp)
  refine Program.wp_bind.mpr (sshReady_spec
    (fun unnamed => absurd unnamed named) fun ok => ?_)
  have hprobed : t.Reboots (2 * s.restarts)
      { after with answered := after.answered || ok } := { reboots with }
  cases ok with
  | true => exact h true _ (hprobed.mono (by omega)) fun _ => Bool.or_true _
  | false =>
      refine Program.wp_bind.mpr (lookAfter_spec _ _ fun guard => ?_)
      refine waitSshRest_spec (s := { s with guard := guard }) named boots most
        hprobed room ?_ ?_
      · exact fun next later le again => ⟨le, again⟩
      · exact hfails _ hprobed

theorem waitTelnet_spec {restartCb : Prog Unit}
    (boots : Restarts py set limit restartCb) (room : t.boots + 2 ≤ limit)
    {Q : Bool → Shown → Prop}
    (h : ∀ ok after, t.Reboots 2 after → (ok = true → after.answered = true) →
      Q ok after) :
    (waitTelnetProg restartCb).wp (release py set limit) Q t := by
  refine Program.wp_forever
    (fun s after => t.Reboots (if s.restarted then 2 else 0) after) (.refl t) ?_
  intro s after reboots
  refine wp_ask_bind.mpr ⟨trivial, fun ok => ?_⟩
  have hprobed : t.Reboots (if s.restarted then 2 else 0)
      (after.add py .telnetReadyCheck ok) := { reboots with }
  have hmost : t.Reboots 2 (after.add py .telnetReadyCheck ok) :=
    hprobed.mono (by split <;> omega)
  cases ok with
  | true => exact h true _ hmost fun _ => Bool.or_true _
  | false =>
      refine Program.wp_bind.mpr (lookAfter_spec _ _ fun guard => ?_)
      simp only
      split
      · cases again : s.restarted with
        | true => exact h false _ hmost (by simp)
        | false =>
            rw [again] at hprobed
            have hboots := hprobed.boots
            refine Program.wp_bind.mpr (boots _ _ ?_ fun later more => ?_)
            · simp only [Bool.false_eq_true, if_false, Nat.add_zero] at hboots
              omega
            · exact (hprobed.trans more).mono (by simp)
      · exact hprobed

end Loops

end Parts

end RiscosBuilder.Build
