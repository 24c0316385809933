import RiscosBuilder.Build.KeySequence
import RiscosBuilder.Build.QemuArgs
import RiscosBuilder.Build.WaitBounded
import RiscosBuilder.Build.WaitVmDown
import RiscosBuilder.Library.Program
import Mathlib.Data.List.DropRight

/-!
# The parts of a build

The functions of `build.py` under `main` that start and stop QEMU, wait for the
guest, run hooks and answer an installer, as programs over what they ask of the
host and the guest.
-/

namespace RiscosBuilder.Build

open RiscosBuilder.Library

/-! ## What is asked -/

/-- The settings that `main` and the functions under it read besides those of `Var`. -/
inductive Setting where
  | VM_SSH_PORT
  | VM_OPTS
  | VM_ISO_LINK
  | VM_PRE_DISK_LINK
  | VM_VHD_LINK
  | VM_NO_VNC_BUILD
  | VM_LOGIN_TAG
  | VM_LOGIN_MAX_SECONDS
  | VM_ROOT_PASSWORD
  | VM_USE_SSHROOT_BUILD_SSH
  | VM_USE_NC_ENABLE_SSH
  | VM_USE_BASH_ENABLE_SSH
  | VM_SSH_MAX_RESTARTS
  | VM_PRE_INSTALL_PKGS
  | VM_INSTALL_SCRIPT
  | VM_INSTALL_CMD
  | VM_PKG_PATH
  | VM_EXTRA_SCRIPT
  | VM_SHUTDOWN_CMD
  | VM_SHUTDOWN_MAX_SECONDS
  | VM_RSYNC_PKG
  | VM_SSHFS_PKG
  | VM_VERIFY_SSH_MAX_SECONDS
  deriving DecidableEq, Repr

/-- The environment once the conf has been loaded, with `os.environ.get("USER", "user")`. -/
structure Conf where
  env : Env
  set : Setting → Text
  user : Text

/-- `int` of a text, and `decode("utf-8", "replace")`. -/
structure Python where
  int : Text → Option Int
  decode : List UInt8 → Text

/-- How a `subprocess.CompletedProcess` looks; 124 stands for a timeout of `_ssh_run`. -/
structure Completed where
  returncode : Int
  stdout : List UInt8
  deriving DecidableEq, Repr

inductive PasteMode where
  | inputFile
  | inputFileNC
  | inputFileBash
  deriving DecidableEq, Repr

/-- What is asked of the host, of QEMU and of the guest. -/
inductive Act where
  | confLoad (path : Text)
  | clearVM
  | startWeb
  | setup
  | pathExists (path : Text)
  | readText (path : Text)
  | optsLines (path : Text)
  | writeText (path data : Text)
  | removeFile (path : Text)
  | copyFile (src dst : Text)
  | keygen
  | genEnablesshLocal
  | addSSHHost
  | addSSHAuthorizedKeys (pbk : Text)
  | guestScript (path : Text)
  | hostPython (path : Text)
  | hostShell (path : Text)
  | createVM (isolink sshport disklink : Text)
  | prepVhdDisk (link : Text)
  | createVMFromVHD (sshport : Text)
  | openConsole
  | closeConsole
  | launchQemu
  | killQemu
  | pidAlive
  | systemPowerdown
  | serialTailLine
  | time
  | screenTextValue
  | effect (effect : Effect)
  | paste (mode : PasteMode) (path : Text)
  | sshpassEnable (sshport : Text)
  | sshReadyCheck
  | telnetReadyCheck
  | detectGuestIp
  | lostInterruptCount
  | ssh (command : Text)
  | sshTo (command path : Text)
  | sshShell (input : Text)
  | sshInstall (payload : Text)
  | sshExtra (path : Text)
  | sshShutdown (command : Text)
  | telnetShutdown (command : Text)
  | authorizedKeys
  | sshEnv
  | rsyncVersion
  | exportDisk (src out : Text)
  | exportDescriptor (qemuArgs : Text)
  deriving DecidableEq, Repr

/-- What is answered. -/
@[reducible]
def Act.Reply : Act → Type
  | .confLoad _ => Bool
  | .pathExists _ => Bool
  | .readText _ => Text
  | .optsLines _ => List Text
  | .hostShell _ => Int
  | .createVM _ _ _ => Int
  | .launchQemu => Int
  | .pidAlive => Bool
  | .serialTailLine => Poll
  | .time => Rat
  | .screenTextValue => Text
  | .sshReadyCheck => Bool
  | .telnetReadyCheck => Bool
  | .detectGuestIp => Text × Build.Reply × Build.Reply
  | .lostInterruptCount => Nat
  | .sshInstall _ => Int
  | .sshExtra _ => Int
  | .authorizedKeys => Completed
  | .sshEnv => List UInt8
  | .rsyncVersion => Completed
  | _ => Unit

abbrev Prog : Type → Type 1 :=
  Program Act Act.Reply

def ask (act : Act) : Prog act.Reply :=
  Program.ask act

/-! ## Small parts -/

/-- `value.strip()`. -/
def strip (value : Text) : Text :=
  (value.dropWhile isSpace).rdropWhile isSpace

/-- Give the guest what a key sequence stands for. -/
def perform : List Effect → Prog Unit
  | [] => pure ()
  | effect :: others => do
      ask (.effect effect)
      perform others

section Parts

variable (py : Python) (conf : Conf)

/-- `int(value or default)`, which may raise. -/
def readInt (value : Text) (default : Int) : Prog Int :=
  if value = [] then pure default
  else
    match py.int value with
    | some seconds => pure seconds
    | none => .raise

def Conf.osname : Text :=
  conf.env .VM_OS_NAME

/-- `input_cmd`. -/
def inputCmd (keys : Text) : Prog Unit :=
  perform (inputKeys conf.env keys)

/-! ## QEMU -/

/-- `startVM`. -/
def startVM : Prog Int :=
  if conf.osname = [] then pure 1 else ask .launchQemu

/-- `shutdownVM`. -/
def shutdownVM : Prog Int :=
  if conf.osname = [] then pure 1
  else do
    ask .systemPowerdown
    pure 0

/-- `destroyVM`. -/
def destroyVM : Prog Int :=
  if conf.osname = [] then pure 1
  else do
    ask .killQemu
    pure 0

/-- `isRunning`. -/
def isRunning : Prog Int :=
  if conf.osname = [] then pure 1
  else do
    let alive ← ask .pidAlive
    pure (if alive then 0 else 1)

/-- A turn of the loop of `_wait_vm_down`. -/
def waitVmDownTurn (poll : Nat) (maxSeconds : Int) (s : Down) :
    Prog (Down ⊕ Unit) := do
  let running ← isRunning conf
  if running = 0 then
    let seen ← ask .serialTailLine
    match downTurn conf.env poll maxSeconds s seen with
    | .goesOn next => pure (.inl next)
    | .destroys _ => do
        let _ ← destroyVM conf
        pure (.inr ())
  else pure (.inr ())

/-- `_wait_vm_down`. -/
def waitVmDownProg (poll : Nat) (maxSeconds : Int) : Prog Unit :=
  Program.forever (waitVmDownTurn conf poll maxSeconds) .start

/-- Whether `_ssh_ready_check` succeeds. -/
def sshReady : Prog Bool :=
  if conf.osname = [] then pure false else ask .sshReadyCheck

/-! ## Hooks -/

/-- The half of `run_hook` on the host. -/
def runHostHook (name : Text) : Prog Bool := do
  let py := text "hooks/host_" ++ name ++ text ".py"
  let hostSh := text "hooks/host_" ++ name ++ text ".sh"
  let python ← ask (.pathExists py)
  if python then
    ask (.hostPython py)
    pure true
  else
    let shell ← ask (.pathExists hostSh)
    if shell then
      let rc ← ask (.hostShell hostSh)
      if rc ≠ (0 : Int) then .raise else pure true
    else pure false

/-- `run_hook`. -/
def runHook (name : Text) : Prog Bool := do
  let vmSh := text "hooks/vm_" ++ name ++ text ".sh"
  let guest ← ask (.pathExists vmSh)
  if guest then ask (.guestScript vmSh)
  let host ← runHostHook name
  pure (guest || host)

/-! ## The screen and the answer file -/

/-- The time is up; without a deadline it never is. -/
def late : Option Rat → Prog Bool
  | none => pure false
  | some deadline => do
      let now ← ask .time
      pure (decide (deadline ≤ now))

/-- `time.time() + int(sec) if sec else None`. -/
def deadlineAfter (sec : Text) : Prog (Option Rat) :=
  if sec = [] then pure none
  else do
    let now ← ask .time
    match py.int sec with
    | some seconds => pure (some (now + seconds))
    | none => .raise

/-- A turn of the loop of `waitForText`. -/
def waitForTextTurn (goal : Text) (deadline : Option Rat) : Prog (Unit ⊕ Int) := do
  if ← late deadline then pure (.inr 1)
  else
    let screen ← ask .screenTextValue
    if goal <:+: screen then pure (.inr 0) else pure (.inl ())

/-- `waitForText` without a hook. -/
def waitForText (goal sec : Text) : Prog Int :=
  if goal = [] then pure 1
  else if conf.osname = [] then pure 1
  else do
    let deadline ← deadlineAfter py (strip sec)
    Program.forever (fun _ => waitForTextTurn goal deadline) ()

/-- What a line of an answer file says. -/
structure Answer where
  text : Text
  keys : Text
  timeout : Text
  deriving DecidableEq, Repr

/-- A line of `processOpts`, if it is not passed over. -/
def readAnswer (line : Text) : Option Answer :=
  let line := line.rdropWhile (· = '\n')
  if (line.filter (· ≠ '#')).filter (· ≠ ' ') = [] then none
  else if (line.dropWhile isSpace).head? = some '#' then none
  else
    let parts := line.splitOn '|'
    some ⟨strip (parts.getD 0 []), parts.getD 1 [], strip (parts.getD 2 [])⟩

/-- The loop of `processOpts`; a text that never comes up ends it. -/
def processAnswers : List Answer → Prog Int
  | [] => pure 0
  | answer :: others => do
      let rc ← waitForText py conf answer.text answer.timeout
      if rc ≠ 0 then pure 1
      else
        inputCmd conf answer.keys
        processAnswers others

/-- `processOpts`. -/
def processOpts (optsfile : Text) : Prog Int :=
  if conf.osname = [] then pure 1
  else if optsfile = [] then pure 1
  else do
    let lines ← ask (.optsLines optsfile)
    processAnswers py conf (lines.filterMap readAnswer)

/-! ## Starting the guest and shutting it down -/

/-- A boot of `start_and_wait`, and whether it has come to the login prompt. -/
def tryBoot (lmax : Text) : Prog Bool := do
  ask .openConsole
  if ← runHook (text "waitForLoginTag") then pure true
  else
    let _ ← waitForText py conf (conf.set .VM_LOGIN_TAG) lmax
    let screen ← ask .screenTextValue
    if conf.set .VM_LOGIN_TAG <:+: screen then pure true
    else
      ask .closeConsole
      let _ ← destroyVM conf
      pure false

/-- The attempts of `start_and_wait`. -/
def startAttempts (lmax : Text) : Nat → Prog Int
  | 0 => pure 1
  | attempts + 1 => do
      let rc ← startVM conf
      if rc ≠ 0 then pure 1
      else if ← tryBoot py conf lmax then pure 0
      else startAttempts lmax attempts

/-- `start_and_wait`. -/
def startAndWait : Prog Int :=
  if conf.osname = [] then pure 1
  else do
    let lmax ← readInt py (conf.set .VM_LOGIN_MAX_SECONDS) 300
    startAttempts py conf (toString lmax).toList 2

/-- A guest that is still up is asked once more. -/
def askPowerdown : Prog Unit := do
  let running ← isRunning conf
  if running = 0 then
    let _ ← shutdownVM conf
  else pure ()

/-- `shutdown_and_wait`, from where the shutdown command has been sent on. -/
def awaitShutdown : Prog Unit := do
  askPowerdown conf
  let smax ← readInt py (conf.set .VM_SHUTDOWN_MAX_SECONDS) 600
  waitVmDownProg conf 5 smax
  ask .closeConsole

/-- `shutdown_and_wait`. -/
def shutdownAndWait : Prog Unit :=
  if conf.osname = [] then pure ()
  else if conf.env .VM_TRANSPORT = text "telnet" then do
    ask (.telnetShutdown (conf.set .VM_SHUTDOWN_CMD))
    awaitShutdown py conf
  else do
    ask (.sshShutdown (conf.set .VM_SHUTDOWN_CMD))
    awaitShutdown py conf

/-- `restart_and_wait`. -/
def restartAndWait : Prog Int := do
  shutdownAndWait py conf
  startAndWait py conf

/-! ## Waiting for the guest -/

/-- The address guard in a turn of `_wait_ssh` or `_wait_telnet`. -/
def lookAfter (guestPort : Nat) (g : Guard) : Prog Guard :=
  if g.guardDone then pure g
  else do
    let (actual, rem, add) ← ask .detectGuestIp
    pure (g.detect guestPort actual rem add)

/-- `_serial_lost_interrupt_count()`, as far as the wedge cutoff looks at it. -/
def countLost (s : WaitSsh) : Prog Nat :=
  if s.guard.guardDone = false ∧ 6 ≤ s.retry then ask .lostInterruptCount
  else pure 0

/-- The guest is restarted, after `kill`, or the wait has failed. -/
def restartSsh (maxRestarts : Int) (restartCb : Option (Prog Unit)) (s : WaitSsh)
    (kill : Prog Unit) : Prog (WaitSsh ⊕ Bool) :=
  match restartCb with
  | none => pure (.inr false)
  | some restartCb =>
      if maxRestarts ≤ s.restarts then pure (.inr false)
      else do
        kill
        restartCb
        let fresh ← ask .lostInterruptCount
        pure (.inl (s.restarted fresh))

/-- A turn of `_wait_ssh` from the wedge cutoff on. -/
def waitSshRest (maxRetries maxRestarts : Int) (restartCb : Option (Prog Unit))
    (s : WaitSsh) : Prog (WaitSsh ⊕ Bool) := do
  let lost ← countLost s
  if s.Wedged lost then
    restartSsh maxRestarts restartCb s do
      let _ ← destroyVM conf
  else if maxRetries < (s.retry + 1 : Nat) then
    restartSsh maxRestarts restartCb s (pure ())
  else pure (.inl { s with retry := s.retry + 1 })

/-- A turn of the loop of `_wait_ssh`. -/
def waitSshTurn (maxRetries maxRestarts : Int)
    (restartCb : Option (Prog Unit)) (s : WaitSsh) : Prog (WaitSsh ⊕ Bool) := do
  if ← sshReady conf then pure (.inr true)
  else
    let guard ← lookAfter 22 s.guard
    waitSshRest conf maxRetries maxRestarts restartCb { s with guard := guard }

/-- `_wait_ssh`. -/
def waitSshProg (restartCb : Option (Prog Unit)) : Prog Bool := do
  let lostBase ← ask .lostInterruptCount
  Program.forever
    (waitSshTurn conf 100 (maxRestarts py.int (conf.set .VM_SSH_MAX_RESTARTS))
      restartCb)
    (.start lostBase)

/-- A turn of the loop of `_wait_telnet`. -/
def waitTelnetTurn (maxRetries : Int) (restartCb : Prog Unit) (s : WaitTelnet) :
    Prog (WaitTelnet ⊕ Bool) := do
  if ← ask .telnetReadyCheck then pure (.inr true)
  else
    let guard ← lookAfter 23 s.guard
    let s := { s with guard := guard, retry := s.retry + 1 }
    if maxRetries < s.retry then
      if s.restarted then pure (.inr false)
      else
        restartCb
        pure (.inl { WaitTelnet.start with restarted := true })
    else pure (.inl s)

/-- `_wait_telnet` with a `restart_cb`. -/
def waitTelnetProg (restartCb : Prog Unit) : Prog Bool :=
  Program.forever (waitTelnetTurn 100 restartCb) .start

end Parts

end RiscosBuilder.Build
