import RiscosBuilder.Build.Pipeline

/-!
# A build

`main` of `build.py`, stage by stage.  A stage that fails is one at which `main`
returns 1.
-/

namespace RiscosBuilder.Build

open RiscosBuilder.Library

/-- With `os.environ["VM_USE_CONSOLE_BUILD"] = ""` where VNC is not ruled out. -/
def Conf.afterInstall (conf : Conf) : Conf :=
  if conf.set .VM_NO_VNC_BUILD = [] then
    { conf with
      env := fun var => if var = .VM_USE_CONSOLE_BUILD then [] else conf.env var }
  else conf

section Stages

variable (py : Python) (conf : Conf)

/-- The transport is telnet. -/
def Conf.telnet (conf : Conf) : Bool :=
  decide (conf.env .VM_TRANSPORT = text "telnet")

/-- What the release files are named after. -/
def Conf.output (conf : Conf) : Text :=
  let named := conf.osname ++ '-' :: conf.env .VM_RELEASE
  wf (if conf.env .VM_ARCH = [] then named else named ++ '-' :: conf.env .VM_ARCH)

/-- `<os>.<suffix>` in the working directory. -/
def Conf.work (conf : Conf) (suffix : String) : Text :=
  wf (conf.osname ++ '.' :: text suffix)

/-- A clean slate, the earliest hook, and what the build needs on the host. -/
def prepare : Prog Bool := do
  ask .clearVM
  let _ ← runHook (text "beforeBuild")
  ask .startWeb
  ask .setup
  pure true

/-- `createVM`. -/
def createVM (isolink sshport disklink : Text) : Prog Int :=
  if conf.osname = [] then pure 1 else ask (.createVM isolink sshport disklink)

/-- `createVMFromVHD`. -/
def createVMFromVHD (sshport : Text) : Prog Int :=
  if conf.osname = [] then pure 1
  else do
    ask (.createVMFromVHD sshport)
    pure 0

/-- After the answer file: the installer is given its time, and then stopped. -/
def stopInstaller : Prog Unit := do
  let running ← isRunning conf
  if running = 0 then
    let _ ← shutdownVM conf
    let _ ← destroyVM conf
  else pure ()

/-- The answer file is played where no hook does the installation. -/
def driveInstaller : Prog Bool := do
  if ← runHook (text "installOpts") then pure true
  else
    let rc ← processOpts py conf (conf.set .VM_OPTS)
    if rc ≠ 0 then
      let _ ← destroyVM conf
      ask .closeConsole
      pure false
    else
      stopInstaller conf
      pure true

/-- The branch of `VM_ISO_LINK`. -/
def install : Prog Bool := do
  let rc ← createVM conf (conf.set .VM_ISO_LINK) (conf.set .VM_SSH_PORT)
    (conf.set .VM_PRE_DISK_LINK)
  if rc ≠ 0 then pure false
  else
    ask .openConsole
    if ← driveInstaller py conf then
      waitVmDownProg conf 20 600
      ask .closeConsole
      pure true
    else pure false

/-- The branch of `VM_VHD_LINK`. -/
def takeDisk : Prog Bool := do
  ask (.prepVhdDisk (conf.set .VM_VHD_LINK))
  let _ ← runHook (text "prepareImage")
  let _ ← createVMFromVHD conf (conf.set .VM_SSH_PORT)
  pure true

/-- The disk comes from an installer or is taken as it is. -/
def makeDisk : Prog Bool :=
  if conf.set .VM_ISO_LINK ≠ [] then install py conf
  else if conf.set .VM_VHD_LINK ≠ [] then takeDisk conf
  else pure false

def firstBoot : Prog Bool := do
  let rc ← startAndWait py conf
  pure (decide (rc = 0))

/-- `_enable_ssh_root_branch`. -/
def enableSshRootBranch : Prog Unit := do
  ask (.sshpassEnable (conf.set .VM_SSH_PORT))
  inputCmd conf (text "enter")
  inputCmd conf (text "enter")
  ask (.ssh (text "pwd"))

/-- The password of `root`, if there is one. -/
def typePassword : Prog Unit :=
  if conf.set .VM_ROOT_PASSWORD = [] then pure ()
  else inputCmd conf (text "string " ++ conf.set .VM_ROOT_PASSWORD ++ text " ; enter")

def enableNetwork : Prog Unit := do
  if ← runHook (text "enableNetwork") then
    let _ ← ask .screenTextValue
  else pure ()

/-- `_enable_ssh_console_branch`. -/
def enableSshConsoleBranch : Prog Unit := do
  inputCmd conf (text "enter")
  inputCmd conf (text "enter")
  inputCmd conf (text "enter")
  inputCmd conf (text "enter")
  inputCmd conf (text "string root; enter")
  typePassword conf
  inputCmd conf (text "enter")
  inputCmd conf (text "enter")
  let _ ← ask .screenTextValue
  enableNetwork
  ask (.paste
    (if conf.set .VM_USE_NC_ENABLE_SSH ≠ [] then .inputFileNC
      else if conf.set .VM_USE_BASH_ENABLE_SSH ≠ [] then .inputFileBash
      else .inputFile) (text "enablessh.local"))
  let _ ← ask .screenTextValue
  inputCmd conf (text "enter")
  inputCmd conf (text "enter")

/-- The key pair of the host. -/
def hostKeys : Prog Unit :=
  if conf.telnet then do
    let there ← ask (.pathExists (text "~/.ssh/id_rsa"))
    if there then pure () else ask .keygen
  else ask .genEnablesshLocal

/-- Open the guest's remote channel. -/
def enableSsh : Prog Bool := do
  hostKeys conf
  if ← runHook (text "enablessh") then pure true
  else if conf.telnet then pure false
  else if conf.set .VM_USE_SSHROOT_BUILD_SSH ≠ [] then
    enableSshRootBranch conf
    pure true
  else
    enableSshConsoleBranch conf
    pure true

/-- `isRunning() == 0 and shutdownVM() != 0` raises. -/
def powerdown : Prog Unit := do
  let running ← isRunning conf
  if running ≠ 0 then pure ()
  else
    let rc ← shutdownVM conf
    if rc ≠ 0 then .raise else pure ()

/-- `_restart`: what becomes of `start_and_wait` is not looked at. -/
def restart : Prog Unit := do
  powerdown conf
  waitVmDownProg conf 5 600
  ask .closeConsole
  let _ ← startAndWait py conf

/-- What `~/.ssh/config` of the guest is made of. -/
def Conf.sshInit (conf : Conf) : Text :=
  text "echo \"StrictHostKeyChecking=no\" >.ssh/config\n" ++
    text "echo \"Host host\" >>.ssh/config\n" ++
    text "echo \"     HostName  192.168.122.1\" >>.ssh/config\n" ++
    text "echo \"     User " ++ conf.user ++ text "\" >>.ssh/config\n" ++
    text "echo \"     ServerAliveInterval 1\" >>.ssh/config\n"

/-- The guest answers. -/
def reach : Prog Bool :=
  if conf.telnet then waitTelnetProg (restart py conf)
  else do
    ask .addSSHHost
    if ← waitSshProg py conf (some (restart py conf)) then
      ask (.sshShell conf.sshInit)
      pure true
    else pure false

def postBuild : Prog Bool := do
  if ← runHook (text "postBuild") then
    let rc ← restartAndWait py conf
    if rc ≠ 0 then pure false
    else waitSshProg py conf none
  else pure true

/-- `<output>-id_rsa.pub`. -/
def publishKey : Prog Bool := do
  let pub := conf.output ++ text "-id_rsa.pub"
  if conf.telnet then
    let there ← ask (.pathExists (text "~/.ssh/id_rsa.pub"))
    if there then
      let key ← ask (.readText (text "~/.ssh/id_rsa.pub"))
      ask (.writeText pub key)
    else ask (.writeText pub [])
    pure true
  else
    ask (.sshTo (text "cat ~/.ssh/id_rsa.pub") pub)
    pure true

/-- The script that installs `VM_PRE_INSTALL_PKGS`. -/
def installPayload : Prog Text :=
  if conf.set .VM_INSTALL_SCRIPT = [] then
    pure (text "set -e\n" ++ conf.set .VM_INSTALL_CMD ++ ' ' ::
      conf.set .VM_PRE_INSTALL_PKGS ++ text "\n")
  else do
    let body ← ask (.readText (conf.set .VM_INSTALL_SCRIPT))
    pure (text "set -e\nANYVM_PKGS=\"" ++ conf.set .VM_PRE_INSTALL_PKGS ++
      text "\"\nANYVM_PKG_PATH=\"" ++ conf.set .VM_PKG_PATH ++ text "\"\n" ++
      body ++ text "\n")

/-- Two attempts, with a reboot in between. -/
def installAttempts (payload : Text) : Prog Bool := do
  let rc ← ask (.sshInstall payload)
  if rc = (0 : Int) then pure true
  else
    let booted ← restartAndWait py conf
    if booted ≠ 0 then pure false
    else
      let rc ← ask (.sshInstall payload)
      pure (decide (rc = (0 : Int)))

def installPackages : Prog Bool :=
  if conf.set .VM_PRE_INSTALL_PKGS = [] then pure true
  else do
    let payload ← installPayload conf
    installAttempts py conf payload

def runExtraScript : Prog Bool :=
  if conf.set .VM_EXTRA_SCRIPT = [] then pure true
  else do
    let rc ← ask (.sshExtra (conf.set .VM_EXTRA_SCRIPT))
    pure (decide (rc = (0 : Int)))

/-- `ak`, read in so many attempts; a status other than 124 and 255 is the guest's own. -/
def readKeys : Nat → Prog (Option (Option (List UInt8)))
  | 0 => pure (some none)
  | attempts + 1 => do
      let r ← ask .authorizedKeys
      if r.returncode = 0 then pure (some (some r.stdout))
      else if r.returncode ≠ 124 ∧ r.returncode ≠ 255 then pure none
      else readKeys attempts

/-- The check of `authorized_keys`. -/
def checkKeys : Prog Bool :=
  if conf.telnet then pure true
  else do
    if ← sshReady conf then
      match ← readKeys 2 with
      | none => pure false
      | some none => pure true
      | some (some ak) => pure (decide (ak.getLast? = some 0x0a))
    else pure true

/-- The last hook in the guest, and the check of what is about to be shipped. -/
def finalize : Prog Bool := do
  let _ ← runHook (text "finalize")
  checkKeys conf

/-- `exportOVA`. -/
def exportOVA (ova qemuArgs : Text) : Prog Int :=
  if conf.osname = [] then pure 1
  else do
    ask (.exportDisk (conf.work "qcow2") ova)
    ask (.exportDescriptor qemuArgs)
    pure 0

/-- The medium is in the way of what comes now. -/
def removeIso : Prog Unit :=
  if conf.set .VM_ISO_LINK = [] then pure () else ask (.removeFile (conf.work "iso"))

/-- The guest is shut down, and its disk becomes the release. -/
def ship : Prog Bool := do
  shutdownAndWait py conf
  let _ ← runHook (text "finalizeImage")
  removeIso conf
  let _ ← exportOVA conf (conf.output ++ text ".qcow2") (conf.output ++ text ".qemu")
  ask (.copyFile (text "~/.ssh/id_rsa") (conf.output ++ text "-host.id_rsa"))
  pure true

/-! ## The verification boot -/

/-- A poll of the verification boot, until its time is up. -/
def awaitVerifyTurn (deadline : Rat) : Prog (Unit ⊕ Bool) := do
  let now ← ask .time
  if deadline ≤ now then pure (.inr false)
  else
    if ← sshReady conf then pure (.inr true)
    else
      let _ ← ask .serialTailLine
      pure (.inl ())

/-- The boots of the verification; nothing is returned where QEMU does not start. -/
def verifyBoots (vmax : Int) : Nat → Prog Bool
  | 0 => pure false
  | attempts + 1 => do
      let rc ← startVM conf
      if rc ≠ 0 then pure false
      else
        let start ← ask .time
        if ← Program.forever (fun _ => awaitVerifyTurn conf (start + vmax)) () then
          pure true
        else
          let _ ← destroyVM conf
          verifyBoots vmax attempts

/-- `_send_env_check`. -/
def sendEnvCheck : Prog Bool := do
  let stdout ← ask .sshEnv
  pure (decide ((text "GITHUB_").map (fun c => UInt8.ofNat c.toNat) <:+: stdout))

/-- The guest's `rsync` prints its version. -/
def checkRsync : Prog Bool :=
  if conf.set .VM_RSYNC_PKG = [] then pure true
  else do
    let rv ← ask .rsyncVersion
    pure (decide (rv.returncode = 0 ∧ strip (py.decode rv.stdout) ≠ []))

/-- The guest's directories, for the log. -/
def showGuest : Prog Unit :=
  if conf.osname = text "haiku" then do
    ask (.ssh (text "mkdir -p '$HOME/work'"))
    ask (.ssh (text "ls -lah '$HOME'"))
    ask (.ssh (text "cat /boot/system/settings/ssh/sshd_config"))
  else do
    ask (.ssh (text "mkdir -p $HOME/work"))
    ask (.ssh (text "ls -lah $HOME"))
    ask (.ssh (text "cat /etc/ssh/sshd_config"))

/-- The verification VM does not outlive the build. -/
def tearDown : Prog Unit := do
  let running ← isRunning conf
  if running = 0 then
    let _ ← destroyVM conf
    ask .closeConsole
  else ask .closeConsole

/-- Boot what has been exported and use it. -/
def verify : Prog Bool :=
  if conf.set .VM_RSYNC_PKG = [] ∧ conf.set .VM_SSHFS_PKG = [] then pure true
  else do
    ask (.addSSHAuthorizedKeys (conf.output ++ text "-id_rsa.pub"))
    let vmax ← readInt py (conf.set .VM_VERIFY_SSH_MAX_SECONDS) 600
    if ← verifyBoots conf vmax 2 then
      if ← sendEnvCheck then
        showGuest conf
        if ← checkRsync py conf then
          tearDown conf
          pure true
        else pure false
      else pure false
    else pure false

/-- The stages of a build from the first boot on. -/
def bootStages : List (Prog Bool) :=
  [firstBoot py conf, enableSsh conf, reach py conf, postBuild py conf,
    publishKey conf, installPackages py conf, runExtraScript conf, finalize conf,
    ship py conf, verify py conf]

/-- The status that `main` returns. -/
def main (argv : List Text) : Prog Int :=
  match argv with
  | _ :: confPath :: _ => do
      let passed ← Program.stages
        (ask (.confLoad confPath) :: prepare :: makeDisk py conf ::
          bootStages py conf.afterInstall)
      pure (if passed then 0 else 1)
  | _ => pure 1

end Stages

end RiscosBuilder.Build
