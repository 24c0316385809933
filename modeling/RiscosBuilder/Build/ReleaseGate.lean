import RiscosBuilder.Build.Shown

/-!
# What is released

Along every run of `main` a disk is exported only when it is fit, and a build that
passes has tried what it has exported.
-/

namespace RiscosBuilder.Build

open RiscosBuilder.Library

/-! ## Between the stages -/

/-- The disk is made, nothing speaks against it, and QEMU was launched so often. -/
structure Built (n : Nat) (t : Shown) : Prop where
  disk : t.disk = true
  hooks : t.hooks = true
  keys : t.keys = true
  exports : t.exports = 0
  boots : t.boots ≤ n

theorem Built.reboots {n m : Nat} {t after : Shown} (built : Built n t)
    (reboots : t.Reboots m after) : Built (n + m) after where
  disk := reboots.disk.trans built.disk
  hooks := reboots.hooks.trans built.hooks
  keys := reboots.keys.trans built.keys
  exports := reboots.exports.trans built.exports
  boots := reboots.boots.trans (Nat.add_le_add_right built.boots m)

theorem Built.mono {n m : Nat} {t : Shown} (built : Built n t) (le : n ≤ m) :
    Built m t :=
  { built with boots := built.boots.trans le }

/-- The restarts that waiting for the guest may take. -/
def waitRestarts (py : Python) (conf : Conf) : Nat :=
  if conf.telnet then 1
  else (maxRestarts py.int (conf.set .VM_SSH_MAX_RESTARTS)).toNat

/-- A medium or its disk, the boots of five stages, and the restarts. -/
def bootLimit (py : Python) (conf : Conf) : Nat :=
  9 + 2 * waitRestarts py conf

/-- What a stage does when it does not fail. -/
def Passes (watch : Program.Watch Act.Reply Shown) (stage : Prog Bool) (t : Shown)
    (P : Shown → Prop) : Prop :=
  ∀ Q : Bool → Shown → Prop, (∀ t, Q false t) → (∀ t, P t → Q true t) →
    stage.wp watch Q t

section Stages

variable {py : Python} {conf : Conf} {set : Setting → Text} {limit : Nat} {t : Shown}

theorem prepare_passes :
    Passes (release py set limit) prepare .start (· = .start) := by
  intro Q _ h
  refine wp_quiet (fun _ => rfl) trivial fun _ => ?_
  refine Program.wp_bind.mpr (runHook_spec _ fun _ => ?_)
  refine wp_quiet (fun _ => rfl) trivial fun _ => ?_
  exact wp_quiet (fun _ => rfl) trivial fun _ => h _ rfl

theorem driveInstaller_spec (named : conf.osname ≠ []) {Q : Bool → Shown → Prop}
    (h : ∀ ok up, Q ok { t with up := up }) :
    (driveInstaller py conf).wp (release py set limit) Q t := by
  refine Program.wp_bind.mpr (runHook_spec _ fun ran => ?_)
  cases ran with
  | true => exact h true t.up
  | false =>
      refine Program.wp_bind.mpr (processOpts_spec _ fun rc => ?_)
      split
      · refine Program.wp_bind.mpr (destroyVM_spec named ?_)
        exact wp_quiet (fun _ => rfl) trivial fun _ => h false false
      · refine Program.wp_bind.mpr (Program.wp_bind.mpr (isRunning_spec named ?_ ?_))
        · refine Program.wp_bind.mpr (shutdownVM_spec fun _ => ?_)
          exact Program.wp_bind.mpr (destroyVM_spec named (h true false))
        · exact h true false

theorem install_passes (room : 0 < limit) :
    Passes (release py set limit) (install py conf) .start (Built 1) := by
  intro Q fails h
  unfold install createVM
  split
  · exact fails _
  · next named =>
      refine wp_ask_bind.mpr ⟨room, fun rc => ?_⟩
      split
      · exact fails _
      · next created =>
          refine wp_quiet (fun _ => rfl) trivial fun _ => ?_
          refine Program.wp_bind.mpr (driveInstaller_spec named fun ok up => ?_)
          cases ok with
          | false => exact fails _
          | true =>
              refine Program.wp_bind.mpr (waitVmDown_spec named _ _ ?_)
              refine wp_quiet (fun _ => rfl) trivial fun _ => h _ ?_
              exact ⟨decide_eq_true (not_not.mp created), rfl, rfl, rfl, Nat.le_refl _⟩

theorem takeDisk_spec {Q : Bool → Shown → Prop} (absent : conf.osname = [] → Q true t)
    (h : Q true { t with disk := true }) :
    (takeDisk conf).wp (release py set limit) Q t := by
  refine wp_quiet (fun _ => rfl) trivial fun _ => ?_
  refine Program.wp_bind.mpr (runHook_spec _ fun _ => Program.wp_bind.mpr ?_)
  unfold createVMFromVHD
  split
  · next unnamed => exact absent unnamed
  · exact wp_ask_bind.mpr ⟨trivial, fun _ => h⟩

/-- A disk is made, unless the guest has no name, and then it does not boot. -/
theorem makeDisk_passes (room : 0 < limit) :
    Passes (release py set limit) (makeDisk py conf) .start
      (fun t => conf.osname = [] ∧ t = .start ∨ Built 1 t) := by
  intro Q fails h
  unfold makeDisk
  split
  · exact install_passes room Q fails fun t built => h t (Or.inr built)
  split
  · refine takeDisk_spec (fun unnamed => h _ (Or.inl ⟨unnamed, rfl⟩)) (h _ (Or.inr ?_))
    exact ⟨rfl, rfl, rfl, rfl, Nat.zero_le _⟩
  · exact fails _

theorem firstBoot_passes (room : 3 ≤ limit)
    (made : conf.osname = [] ∧ t = .start ∨ Built 1 t) :
    Passes (release py set limit) (firstBoot py conf) t
      (fun t => conf.osname ≠ [] ∧ Built 3 t) := by
  intro Q fails h
  have hboots : t.boots ≤ 1 := by
    rcases made with ⟨-, rfl⟩ | built
    · exact Nat.zero_le _
    · exact built.boots
  refine Program.wp_bind.mpr (startAndWait_spec (by omega) (fun _ => fails _) ?_)
  intro rc after named reboots
  by_cases up : rc = 0
  · rw [decide_eq_true up]
    rcases made with ⟨unnamed, -⟩ | built
    · exact absurd unnamed named
    · exact h _ ⟨named, built.reboots reboots⟩
  · rw [decide_eq_false up]
    exact fails _

theorem enableSshConsoleBranch_spec {Q : Unit → Shown → Prop} (h : Q () t) :
    (enableSshConsoleBranch conf).wp (release py set limit) Q t := by
  refine Program.wp_bind.mpr (inputCmd_spec _ ?_)
  refine Program.wp_bind.mpr (inputCmd_spec _ ?_)
  refine Program.wp_bind.mpr (inputCmd_spec _ ?_)
  refine Program.wp_bind.mpr (inputCmd_spec _ ?_)
  refine Program.wp_bind.mpr (inputCmd_spec _ ?_)
  have hpassword : ∀ Q : Unit → Shown → Prop, Q () t →
      (typePassword conf).wp (release py set limit) Q t := by
    intro Q h
    unfold typePassword
    split
    · exact h
    · exact inputCmd_spec _ h
  have hnetwork : ∀ Q : Unit → Shown → Prop, Q () t →
      enableNetwork.wp (release py set limit) Q t := by
    intro Q h
    refine Program.wp_bind.mpr (runHook_spec _ fun ran => ?_)
    cases ran with
    | true => exact wp_quiet (fun _ => rfl) trivial fun _ => h
    | false => exact h
  refine Program.wp_bind.mpr (hpassword _ ?_)
  refine Program.wp_bind.mpr (inputCmd_spec _ ?_)
  refine Program.wp_bind.mpr (inputCmd_spec _ ?_)
  refine wp_quiet (fun _ => rfl) trivial fun _ => ?_
  refine Program.wp_bind.mpr (hnetwork _ ?_)
  refine wp_quiet (fun _ => rfl) trivial fun _ => ?_
  refine wp_quiet (fun _ => rfl) trivial fun _ => ?_
  refine Program.wp_bind.mpr (inputCmd_spec _ ?_)
  exact inputCmd_spec _ h

theorem enableSsh_passes :
    Passes (release py set limit) (enableSsh conf) t (· = t) := by
  intro Q fails h
  have hkeys : ∀ Q : Unit → Shown → Prop, Q () t →
      (hostKeys conf).wp (release py set limit) Q t := by
    intro Q h
    unfold hostKeys
    split
    · refine wp_quiet (fun _ => rfl) trivial fun there => ?_
      cases there with
      | true => exact h
      | false => exact ⟨trivial, fun _ => h⟩
    · exact ⟨trivial, fun _ => h⟩
  refine Program.wp_bind.mpr (hkeys _ (Program.wp_bind.mpr (runHook_spec _ ?_)))
  intro ran
  cases ran with
  | true => exact h t rfl
  | false =>
      simp only [Bool.false_eq_true, if_false]
      split
      · exact fails t
      split
      · refine Program.wp_bind.mpr (wp_quiet (fun _ => rfl) trivial fun _ => ?_)
        refine Program.wp_bind.mpr (inputCmd_spec _ ?_)
        refine Program.wp_bind.mpr (inputCmd_spec _ ?_)
        exact ⟨trivial, fun _ => h t rfl⟩
      · exact Program.wp_bind.mpr (enableSshConsoleBranch_spec (h t rfl))

theorem restart_spec (named : conf.osname ≠ []) :
    Restarts py set limit (restart py conf) := by
  intro t Q room h
  have hrest : ∀ up, (do
      waitVmDownProg conf 5 600
      ask .closeConsole
      let _ ← startAndWait py conf : Prog Unit).wp (release py set limit) Q
        { t with up := up } := by
    intro up
    refine Program.wp_bind.mpr (waitVmDown_spec named _ _ ?_)
    refine wp_quiet (fun _ => rfl) trivial fun _ => Program.wp_bind.mpr ?_
    refine startAndWait_spec (t := { t with up := false }) room
      (fun unnamed => absurd unnamed named) ?_
    exact fun rc after _ reboots => h after { reboots with }
  refine Program.wp_bind.mpr (Program.wp_bind.mpr (isRunning_spec named ?_ ?_))
  · refine Program.wp_bind.mpr (shutdownVM_spec fun rc => ?_)
    split
    · exact trivial
    · exact hrest t.up
  · exact hrest false

theorem maxRestarts_le (plain : conf.telnet = false) :
    maxRestarts py.int (conf.set .VM_SSH_MAX_RESTARTS) ≤ waitRestarts py conf := by
  rw [waitRestarts, plain, if_neg Bool.false_ne_true]
  exact Int.self_le_toNat _

theorem reach_passes (named : conf.osname ≠ []) (built : Built 3 t)
    (room : 3 + 2 * waitRestarts py conf ≤ limit) :
    Passes (release py set limit) (reach py conf) t
      (fun t => Built (3 + 2 * waitRestarts py conf) t ∧ t.answered = true) := by
  intro Q fails h
  have hboots := built.boots
  unfold reach
  split
  · next telnet =>
      have hone : waitRestarts py conf = 1 := if_pos telnet
      refine waitTelnet_spec (restart_spec named) (by omega) fun ok after again answers => ?_
      cases ok with
      | false => exact fails _
      | true => exact h _ ⟨(built.reboots again).mono (by omega), answers rfl⟩
  · next plain =>
      refine wp_quiet (fun _ => rfl) trivial fun _ => Program.wp_bind.mpr ?_
      refine waitSsh_spec (m := waitRestarts py conf) named ?_ (by omega) ?_
      · rintro cb same
        obtain rfl := Option.some.inj same
        exact ⟨restart_spec named, maxRestarts_le (Bool.eq_false_of_not_eq_true plain)⟩
      · intro ok after again answers
        cases ok with
        | false => exact fails _
        | true =>
            refine wp_quiet (fun _ => rfl) trivial fun _ => ?_
            exact h _ ⟨built.reboots again, answers rfl⟩

theorem postBuild_passes (named : conf.osname ≠ []) {n : Nat} (built : Built n t)
    (answered : t.answered = true) (room : n + 2 ≤ limit) :
    Passes (release py set limit) (postBuild py conf) t
      (fun t => Built (n + 2) t ∧ t.answered = true) := by
  intro Q fails h
  have hboots := built.boots
  refine Program.wp_bind.mpr (runHook_spec _ fun ran => ?_)
  cases ran with
  | false => exact h _ ⟨built.mono (by omega), answered⟩
  | true =>
      refine Program.wp_bind.mpr (restartAndWait_spec named (by omega) ?_)
      intro rc after again
      split
      · exact fails _
      · refine waitSsh_spec (m := 0) named (by simp) ?_ ?_
        · have := (built.reboots again).boots
          omega
        · intro ok last more answers
          cases ok with
          | false => exact fails _
          | true => exact h _ ⟨(built.reboots again).reboots more, answers rfl⟩

theorem publishKey_passes :
    Passes (release py set limit) (publishKey conf) t (· = t) := by
  intro Q _ h
  unfold publishKey
  simp only
  split
  · refine wp_quiet (fun _ => rfl) trivial fun there => ?_
    cases there with
    | true =>
        refine wp_quiet (fun _ => rfl) trivial fun key => ?_
        exact wp_quiet (fun _ => rfl) trivial fun _ => h t rfl
    | false => exact wp_quiet (fun _ => rfl) trivial fun _ => h t rfl
  · exact wp_quiet (fun _ => rfl) trivial fun _ => h t rfl

/-- The guest answers, and what the conf installs is installed. -/
structure Equipped (set : Setting → Text) (n : Nat) (t : Shown) : Prop
    extends Built n t where
  answered : t.answered = true
  installed : set .VM_PRE_INSTALL_PKGS ≠ [] → t.installed = true

/-- A script that has succeeded was run by a guest that answers. -/
theorem Built.install {n : Nat} (built : Built n t) (payload : Text) :
    Equipped set n (t.add py (.sshInstall payload) (0 : Int)) where
  disk := built.disk
  hooks := built.hooks
  keys := built.keys
  exports := built.exports
  boots := built.boots
  answered := by simp [Shown.add]
  installed _ := by simp [Shown.add]

theorem installAttempts_spec (named : conf.osname ≠ []) {n : Nat} (built : Built n t)
    (room : n + 2 ≤ limit) (payload : Text) {Q : Bool → Shown → Prop}
    (fails : ∀ t, Q false t) (h : ∀ t, Equipped set (n + 2) t → Q true t) :
    (installAttempts py conf payload).wp (release py set limit) Q t := by
  have hmore : ∀ t, Equipped set n t → Q true t := fun t equipped =>
    h t { equipped with boots := equipped.boots.trans (by omega) }
  refine wp_ask_bind.mpr ⟨trivial, fun rc => ?_⟩
  have hbuilt : Built n (t.add py (.sshInstall payload) rc) :=
    ⟨built.disk, built.hooks, built.keys, built.exports, built.boots⟩
  have hboots := hbuilt.boots
  split
  · next passed =>
      obtain rfl : rc = (0 : Int) := passed
      exact hmore _ (built.install payload)
  · refine Program.wp_bind.mpr (restartAndWait_spec named (by omega) ?_)
    intro booted after reboots
    split
    · exact fails _
    · refine wp_ask_bind.mpr ⟨trivial, fun again => ?_⟩
      by_cases passed : again = (0 : Int)
      · obtain rfl : again = (0 : Int) := passed
        exact h _ ((hbuilt.reboots reboots).install payload)
      · rw [decide_eq_false passed]
        exact fails _

theorem installPackages_passes (named : conf.osname ≠ []) {n : Nat} (built : Built n t)
    (answered : t.answered = true) (room : n + 2 ≤ limit) :
    Passes (release py conf.set limit) (installPackages py conf) t
      (Equipped conf.set (n + 2)) := by
  intro Q fails h
  unfold installPackages
  split
  · next nothing =>
      exact h t ⟨built.mono (by omega), answered, fun asked => absurd nothing asked⟩
  · refine Program.wp_bind.mpr ?_
    have hpayload : ∀ Q : Text → Shown → Prop, (∀ payload, Q payload t) →
        (installPayload conf).wp (release py conf.set limit) Q t := by
      intro Q h
      unfold installPayload
      split
      · exact h _
      · exact wp_quiet (fun _ => rfl) trivial fun _ => h _
    exact hpayload _ fun payload =>
      installAttempts_spec named built room payload fails h

/-- Nothing is left to do for the disk but to shut the guest down. -/
structure Finished (set : Setting → Text) (n : Nat) (t : Shown) : Prop
    extends Equipped set n t where
  extra : set .VM_EXTRA_SCRIPT ≠ [] → t.extra = true

theorem runExtraScript_passes {n : Nat} (equipped : Equipped conf.set n t) :
    Passes (release py conf.set limit) (runExtraScript conf) t
      (Finished conf.set n) := by
  intro Q fails h
  unfold runExtraScript
  split
  · next nothing => exact h t ⟨equipped, fun asked => absurd nothing asked⟩
  · refine wp_ask_bind.mpr ⟨trivial, fun rc => ?_⟩
    by_cases passed : rc = (0 : Int)
    · rw [decide_eq_true passed]
      have hequipped : Equipped conf.set n (t.add py (.sshExtra _) rc) :=
        { equipped with }
      exact h _ ⟨hequipped, fun _ => decide_eq_true passed⟩
    · rw [decide_eq_false passed]
      exact fails _

theorem readKeys_spec {n : Nat} (attempts : Nat) (finished : Finished set n t)
    {Q : Option (Option (List UInt8)) → Shown → Prop} (fails : ∀ t, Q none t)
    (silent : ∀ t, Finished set n t → Q (some none) t)
    (h : ∀ ak t, (ak.getLast? = some 0x0a → Finished set n t) → Q (some (some ak)) t) :
    (readKeys attempts).wp (release py set limit) Q t := by
  induction attempts generalizing t with
  | zero => exact silent t finished
  | succ attempts ih =>
      refine wp_ask_bind.mpr ⟨trivial, fun r => ?_⟩
      have hfinished : Shown.keysStand r = true →
          Finished set n (t.add py .authorizedKeys r) := fun stand =>
        { finished with keys := stand }
      split
      · next answered =>
          refine h _ _ fun ends => hfinished ?_
          rw [Shown.keysStand, if_pos answered]
          exact decide_eq_true ends
      · next unanswered =>
          split
          · exact fails _
          · next transport =>
              refine ih (hfinished ?_)
              rw [Shown.keysStand, if_neg unanswered]
              exact decide_eq_true (by omega)

theorem finalize_passes {n : Nat} (finished : Finished conf.set n t) :
    Passes (release py conf.set limit) (finalize conf) t (Finished conf.set n) := by
  intro Q fails h
  refine Program.wp_bind.mpr (runHook_spec _ fun _ => ?_)
  unfold checkKeys
  split
  · exact h t finished
  · refine Program.wp_bind.mpr (sshReady_spec (fun _ => h t finished) fun ok => ?_)
    have hprobed : Finished conf.set n { t with answered := t.answered || ok } :=
      { finished with answered := by simp [finished.answered] }
    cases ok with
    | false => exact h _ hprobed
    | true =>
        refine Program.wp_bind.mpr (readKeys_spec 2 hprobed fails h ?_)
        intro ak t ends
        change Q (decide (ak.getLast? = some 0x0a)) t
        by_cases stand : ak.getLast? = some 0x0a
        · rw [decide_eq_true stand]
          exact h t (ends stand)
        · rw [decide_eq_false stand]
          exact fails t

/-- The disk was exported, and QEMU is gone. -/
structure Shipped (n : Nat) (t : Shown) : Prop where
  exported : t.exports = 1
  down : t.up = false
  boots : t.boots ≤ n

theorem Finished.fit {n : Nat} (finished : Finished set n t) :
    Shown.Fit set { t with up := false } where
  disk := finished.disk
  down := rfl
  answered := finished.answered
  hooks := finished.hooks
  installed := finished.installed
  extra := finished.extra
  keys := finished.keys
  once := finished.exports

theorem ship_passes (named : conf.osname ≠ []) {n : Nat}
    (finished : Finished conf.set n t) :
    Passes (release py conf.set limit) (ship py conf) t (Shipped n) := by
  intro Q _ h
  refine Program.wp_bind.mpr (shutdownAndWait_spec named ?_)
  refine Program.wp_bind.mpr (runHook_spec _ fun _ => Program.wp_bind.mpr ?_)
  have hiso : ∀ Q : Unit → Shown → Prop, Q () { t with up := false } →
      (removeIso conf).wp (release py conf.set limit) Q { t with up := false } := by
    intro Q h
    unfold removeIso
    split
    · exact h
    · exact ⟨trivial, fun _ => h⟩
  refine hiso _ (Program.wp_bind.mpr ?_)
  rw [exportOVA, if_neg named]
  refine wp_ask_bind.mpr ⟨finished.fit, fun _ => ?_⟩
  refine wp_quiet (fun _ => rfl) trivial fun _ => ?_
  refine wp_quiet (fun _ => rfl) trivial fun _ => h _ ?_
  exact ⟨congrArg Nat.succ finished.exports, rfl, finished.boots⟩

/-! ## The verification -/

theorem awaitVerify_spec (named : conf.osname ≠ []) (deadline : Rat)
    {Q : Bool → Shown → Prop} (silent : ∀ answered, Q false { t with answered })
    (h : Q true { t with answered := true }) :
    (Program.forever (fun _ => awaitVerifyTurn conf deadline) ()).wp
      (release py set limit) Q t := by
  refine Program.wp_forever (fun _ after => ∃ answered, after = { t with answered })
    ⟨t.answered, rfl⟩ ?_
  rintro ⟨⟩ _ ⟨answered, rfl⟩
  refine wp_quiet (fun _ => rfl) trivial fun now => ?_
  split
  · exact silent answered
  · refine Program.wp_bind.mpr (sshReady_spec
      (fun unnamed => absurd unnamed named) fun ok => ?_)
    cases ok with
    | true =>
        have hanswered : (answered || true) = true := Bool.or_true answered
        simp only [hanswered]
        exact h
    | false => exact wp_quiet (fun _ => rfl) trivial fun _ => ⟨answered || false, rfl⟩

/-- The exported disk was booted, and the guest on it has answered. -/
structure Tried (t : Shown) : Prop where
  exported : t.exports = 1
  booted : t.booted = true
  answered : t.answered = true

theorem verifyBoots_spec (named : conf.osname ≠ []) (vmax : Int) (attempts : Nat)
    (exported : t.exports = 1) (room : t.boots + attempts ≤ limit)
    {Q : Bool → Shown → Prop} (fails : ∀ t, Q false t)
    (h : ∀ t, Tried t → Q true t) :
    (verifyBoots conf vmax attempts).wp (release py set limit) Q t := by
  induction attempts generalizing t with
  | zero => exact fails t
  | succ attempts ih =>
      refine Program.wp_bind.mpr (startVM_spec (by omega)
        (fun unnamed => absurd unnamed named) fun rc _ => ?_)
      split
      · exact fails _
      · next started =>
          have hbooted : (t.launched rc).booted = true :=
            decide_eq_true (not_not.mp started)
          have hroom : t.boots + 1 + attempts ≤ limit := by omega
          refine wp_quiet (fun _ => rfl) trivial fun start => Program.wp_bind.mpr ?_
          refine awaitVerify_spec named _ (fun answered => ?_)
            (h _ ⟨exported, hbooted, rfl⟩)
          refine Program.wp_bind.mpr (destroyVM_spec named ?_)
          exact ih exported hroom

theorem tearDown_spec (named : conf.osname ≠ []) {Q : Unit → Shown → Prop}
    (h : Q () { t with up := false }) :
    (tearDown conf).wp (release py set limit) Q t := by
  refine Program.wp_bind.mpr (isRunning_spec named ?_ ?_)
  · exact Program.wp_bind.mpr (destroyVM_spec named ⟨trivial, fun _ => h⟩)
  · exact ⟨trivial, fun _ => h⟩

theorem showGuest_spec {Q : Unit → Shown → Prop} (h : Q () t) :
    (showGuest conf).wp (release py set limit) Q t := by
  unfold showGuest
  split
  · refine wp_quiet (fun _ => rfl) trivial fun _ => ?_
    refine wp_quiet (fun _ => rfl) trivial fun _ => ?_
    exact ⟨trivial, fun _ => h⟩
  · refine wp_quiet (fun _ => rfl) trivial fun _ => ?_
    refine wp_quiet (fun _ => rfl) trivial fun _ => ?_
    exact ⟨trivial, fun _ => h⟩

/-- What is known of the exported disk once `rsync` has been tried. -/
theorem checkRsync_spec {Q : Bool → Shown → Prop} (fails : ∀ t, Q false t)
    (tried : Tried t) (sent : t.sendEnv = true)
    (h : ∀ t, Tried t → t.sendEnv = true →
      (conf.set .VM_RSYNC_PKG ≠ [] → t.rsync = true) → Q true t) :
    (checkRsync py conf).wp (release py set limit) Q t := by
  unfold checkRsync
  split
  · next nothing => exact h t tried sent fun asked => absurd nothing asked
  · refine wp_ask_bind.mpr ⟨trivial, fun rv => ?_⟩
    change Q (decide (rv.returncode = 0 ∧ strip (py.decode rv.stdout) ≠ [])) _
    by_cases runs : rv.returncode = 0 ∧ strip (py.decode rv.stdout) ≠ []
    · rw [decide_eq_true runs]
      exact h _ { tried with } sent fun _ => decide_eq_true runs
    · rw [decide_eq_false runs]
      exact fails _

theorem verify_passes (named : conf.osname ≠ []) {n : Nat} (shipped : Shipped n t)
    (room : n + 2 ≤ limit) :
    Passes (release py conf.set limit) (verify py conf) t (Shown.Passed conf.set) := by
  intro Q fails h
  have hboots := shipped.boots
  unfold verify
  split
  · next nothing =>
      have hquiet : ¬ (conf.set .VM_RSYNC_PKG ≠ [] ∨ conf.set .VM_SSHFS_PKG ≠ []) := by
        simp [nothing.1, nothing.2]
      exact h t ⟨shipped.exported, shipped.down, fun asked => absurd asked hquiet,
        fun asked => absurd asked hquiet, fun asked => absurd nothing.1 asked⟩
  · refine wp_quiet (fun _ => rfl) trivial fun _ => ?_
    refine Program.wp_bind.mpr (readInt_spec _ _ fun vmax => ?_)
    refine Program.wp_bind.mpr (verifyBoots_spec named vmax 2 shipped.exported
      (by omega) fails fun t tried => ?_)
    refine Program.wp_bind.mpr (wp_ask_bind.mpr ⟨trivial, fun stdout => ?_⟩)
    change Program.wp _ (if decide ((text "GITHUB_").map (fun c =>
      UInt8.ofNat c.toNat) <:+: stdout) = true then _ else _) Q _
    split
    · next sent =>
        refine Program.wp_bind.mpr (showGuest_spec ?_)
        refine Program.wp_bind.mpr (checkRsync_spec fails { tried with } sent ?_)
        intro t tried sent rsync
        refine Program.wp_bind.mpr (tearDown_spec named (h _ ?_))
        exact ⟨tried.exported, rfl, fun _ => tried.booted,
          fun _ => ⟨tried.answered, sent⟩, rsync⟩
    · exact fails _

end Stages

/-! ## A whole build -/

theorem afterInstall_set (conf : Conf) : conf.afterInstall.set = conf.set := by
  unfold Conf.afterInstall
  split <;> rfl

theorem afterInstall_osname (conf : Conf) : conf.afterInstall.osname = conf.osname := by
  unfold Conf.afterInstall
  split <;> rfl

theorem afterInstall_waitRestarts (py : Python) (conf : Conf) :
    waitRestarts py conf.afterInstall = waitRestarts py conf := by
  unfold Conf.afterInstall
  split <;> rfl

/-- The stages from the first boot on. -/
theorem bootStages_passes {py : Python} {conf : Conf} {t : Shown}
    (made : conf.osname = [] ∧ t = .start ∨ Built 1 t) {Q : Bool → Shown → Prop}
    (fails : ∀ t, Q false t) (h : ∀ t, t.Passed conf.set → Q true t) :
    (Program.stages (bootStages py conf)).wp
      (release py conf.set (bootLimit py conf)) Q t := by
  refine Program.wp_stages fails (firstBoot_passes ?_ made _ (by simp) ?_)
  · simp [bootLimit]
    omega
  rintro t ⟨named, built⟩ -
  refine Program.wp_stages fails (enableSsh_passes _ (by simp) ?_)
  rintro _ rfl -
  refine Program.wp_stages fails (reach_passes named built ?_ _ (by simp) ?_)
  · simp only [bootLimit]
    omega
  rintro t ⟨built, answered⟩ -
  refine Program.wp_stages fails (postBuild_passes named built answered ?_ _ (by simp) ?_)
  · simp only [bootLimit]
    omega
  rintro t ⟨built, answered⟩ -
  refine Program.wp_stages fails (publishKey_passes _ (by simp) ?_)
  rintro _ rfl -
  refine Program.wp_stages fails
    (installPackages_passes named built answered ?_ _ (by simp) ?_)
  · simp only [bootLimit]
    omega
  rintro t equipped -
  refine Program.wp_stages fails (runExtraScript_passes equipped _ (by simp) ?_)
  rintro t finished -
  refine Program.wp_stages fails (finalize_passes finished _ (by simp) ?_)
  rintro t finished -
  refine Program.wp_stages fails (ship_passes named finished _ (by simp) ?_)
  rintro t shipped -
  refine Program.wp_stages fails (verify_passes named shipped ?_ _ (by simp) ?_)
  · simp only [bootLimit]
    omega
  exact fun t passed _ => h t passed

/-- `main`, whatever its calls answer. -/
theorem main_spec (py : Python) (conf : Conf) (argv : List Text) :
    (main py conf argv).wp (release py conf.set (bootLimit py conf))
      (fun rc t => rc = 0 → t.Passed conf.set) .start := by
  have hroom : 0 < bootLimit py conf := by
    simp only [bootLimit]
    omega
  have hstages : ∀ confPath, (Program.stages
      (ask (.confLoad confPath) :: prepare :: makeDisk py conf ::
        bootStages py conf.afterInstall)).wp
      (release py conf.set (bootLimit py conf))
      (fun ok t => ok = true → t.Passed conf.set) .start := by
    intro confPath
    refine Program.wp_stages (by simp) ⟨trivial, fun loaded _ => ?_⟩
    refine Program.wp_stages (by simp) (prepare_passes _ (by simp) ?_)
    rintro _ rfl -
    refine Program.wp_stages (by simp) (makeDisk_passes hroom _ (by simp) ?_)
    rintro t made -
    have hrest := @bootStages_passes py conf.afterInstall t (by
      rwa [afterInstall_osname])
      (fun ok t => ok = true → t.Passed conf.set) (by simp) (by
        rw [afterInstall_set]
        exact fun t passed _ => passed)
    rwa [afterInstall_set, bootLimit, afterInstall_waitRestarts] at hrest
  unfold main
  split
  · next confPath _ =>
      refine Program.wp_bind.mpr (Program.wp_mono (fun ok t passed => ?_)
        (hstages confPath))
      cases ok with
      | true => exact fun _ => passed rfl
      | false => exact fun zero => absurd zero (by decide)
  · exact fun zero => absurd zero (by decide)

/-! ## A build in which all goes well -/

/-- A guest of NetBSD that is taken as a disk, with packages and a desktop. -/
def desktop : Conf where
  env
    | .VM_OS_NAME => text "netbsd"
    | .VM_RELEASE => text "10.1"
    | _ => []
  set
    | .VM_VHD_LINK => text "netbsd.qcow2"
    | .VM_LOGIN_TAG => text "login:"
    | .VM_PRE_INSTALL_PKGS => text "rsync"
    | .VM_EXTRA_SCRIPT => text "hooks/xfce.sh"
    | .VM_RSYNC_PKG => text "rsync"
    | _ => []
  user := text "user"

/-- `int` of digits, and `decode` of ASCII. -/
def plain : Python where
  int digits := some (digits.foldl (fun n c => 10 * n + (c.toNat - 0x30 : Nat)) 0)
  decode bytes := bytes.map fun byte => Char.ofNat byte.toNat

/-- What is answered when all goes well. -/
def smooth : (act : Act) → act.Reply
  | .confLoad _ => true
  | .pathExists path => decide (path = text "hooks/vm_finalize.sh")
  | .readText _ => []
  | .optsLines _ => []
  | .hostShell _ => 0
  | .createVM _ _ _ => 0
  | .launchQemu => 0
  | .pidAlive => false
  | .serialTailLine => ⟨0, []⟩
  | .time => 0
  | .screenTextValue => text "login:"
  | .sshReadyCheck => true
  | .telnetReadyCheck => true
  | .detectGuestIp => ([], .lost, .lost)
  | .lostInterruptCount => 0
  | .sshInstall _ => 0
  | .sshExtra _ => 0
  | .authorizedKeys => ⟨0, [0x6b, 0x0a]⟩
  | .sshEnv => [0x47, 0x49, 0x54, 0x48, 0x55, 0x42, 0x5f]
  | .rsyncVersion => ⟨0, [0x33]⟩
  | .clearVM | .startWeb | .setup | .writeText _ _ | .removeFile _ | .copyFile _ _
  | .keygen | .genEnablesshLocal | .addSSHHost | .addSSHAuthorizedKeys _
  | .guestScript _ | .hostPython _ | .prepVhdDisk _ | .createVMFromVHD _
  | .openConsole | .closeConsole | .killQemu | .systemPowerdown | .effect _
  | .paste _ _ | .sshpassEnable _ | .ssh _ | .sshTo _ _ | .sshShell _
  | .sshShutdown _ | .telnetShutdown _ | .exportDisk _ _ | .exportDescriptor _ => ()

/-- The build, and what it has asked. -/
def smoothBuild : Except Halt Int × List (Answered Act.Reply) :=
  Program.play (fun _ act => some (smooth act)) 100
    (main plain desktop [text "build.py", text "netbsd.conf"]) []

theorem smoothBuild_runs :
    (main plain desktop [text "build.py", text "netbsd.conf"]).Runs smoothBuild.2
      smoothBuild.1 :=
  Program.play_runs _ 100 _ []

/-! ## What every build keeps to -/

/-- A disk is exported only when it is fit. -/
def ExportsFit (py : Python) (conf : Conf) (history : List (Answered Act.Reply)) :
    Prop :=
  ∀ front src out reply, front ++ [⟨.exportDisk src out, reply⟩] <+: history →
    (Shown.of py front).Fit conf.set

/--
Along every run of `main`, also one that raises: when the disk is exported, it was
made, the guest has answered since its last boot and is down, the last run of each
script that the conf asks for has succeeded, no host hook has failed, the keys that
were read are in order, and no disk has been exported before.
-/
theorem exports_fit {py : Python} {conf : Conf} {argv : List Text}
    {history : List (Answered Act.Reply)} {out : Except Halt Int}
    (runs : (main py conf argv).Runs history out) : ExportsFit py conf history := by
  intro front src dst reply early
  exact (runs.sound (main_spec py conf argv)).1 front ⟨.exportDisk src dst, reply⟩ early

theorem exports_fit_smooth : ExportsFit plain desktop smoothBuild.2 :=
  exports_fit smoothBuild_runs

/--
A build that returns 0 has exported its disk once and leaves no QEMU behind; where
the conf names packages to look for, the exported disk was booted, the guest has
answered and has let the environment through, and its `rsync` runs if it should.
-/
theorem passes_verified {py : Python} {conf : Conf} {argv : List Text}
    {history : List (Answered Act.Reply)}
    (runs : (main py conf argv).Runs history (.ok 0)) :
    (Shown.of py history).Passed conf.set :=
  (runs.sound (main_spec py conf argv)).2 0 rfl rfl

theorem passes_verified_smooth :
    (Shown.of plain smoothBuild.2).Passed desktop.set := by
  have hruns := smoothBuild_runs
  have hout : smoothBuild.1 = .ok 0 := by
    decide +kernel
  rw [hout] at hruns
  exact passes_verified hruns

/-- QEMU is launched by two calls, and each of them counts. -/
theorem Shown.boots_add {py : Python} {set : Setting → Text} {limit : Nat} {t : Shown}
    {act : Act} (allowed : (release py set limit).allows t act)
    (most : t.boots ≤ limit) (reply : act.Reply) : (t.add py act reply).boots ≤ limit := by
  cases act with
  | createVM isolink sshport disklink => exact allowed
  | launchQemu => exact allowed
  | _ => exact most

theorem boots_le_of_kept {py : Python} {set : Setting → Text} {limit : Nat}
    {history : List (Answered Act.Reply)}
    (kept : (release py set limit).Kept .start history) :
    (Shown.of py history).boots ≤ limit := by
  induction history using List.reverseRecOn with
  | nil => exact Nat.zero_le _
  | append_singleton front answered ih =>
      obtain ⟨hfront, hlast⟩ := Program.Watch.kept_append.mp kept
      have hmost := ih hfront
      obtain ⟨act, reply⟩ := answered
      rw [Shown.of, Program.seen_append]
      cases reply with
      | none => exact hmost
      | some reply => exact Shown.boots_add (Program.Watch.kept_cons.mp hlast).1 hmost reply

/--
However often boots fail, panic or are restarted, `main` launches QEMU no more than
nine times and twice for each restart that waiting for the guest may take.
-/
theorem launches_bounded {py : Python} {conf : Conf} {argv : List Text}
    {history : List (Answered Act.Reply)} {out : Except Halt Int}
    (runs : (main py conf argv).Runs history out) :
    (Shown.of py history).boots ≤ bootLimit py conf :=
  boots_le_of_kept (runs.sound (main_spec py conf argv)).1

/-- A guest that never shows its login prompt. -/
def mute (_ : List (Answered Act.Reply)) : (act : Act) → Option act.Reply
  | .screenTextValue => some (text "panic")
  | act => some (smooth act)

theorem launches_bounded_mute : (Shown.of plain
    (Program.play mute 1000 (main plain desktop
      [text "build.py", text "netbsd.conf"]) []).2).boots ≤ bootLimit plain desktop :=
  launches_bounded (Program.play_runs mute 1000 _ [])

end RiscosBuilder.Build
