import Mathlib.Tactic.SplitIfs
import Mathlib.Tactic.Tauto
import RiscosBuilder.Build.QemuArgs

/-!
# What stands on the command line

The readings of the command line that a profile can be compared with, taken
where they are easy to take: among the arguments that are more than an option
with a text of its own.
-/

namespace RiscosBuilder.Build

/-! ## Reading the command line -/

/-- The options of a comma-separated value, put together again. -/
def joined (options : List Text) : Text :=
  [','].intercalate options

def isAccel (option : Text) : Bool :=
  (text "accel=").isPrefixOf option

def isBus (option : Text) : Bool :=
  (text "bus=").isPrefixOf option

/-- The machine type, and the options other than `accel`. -/
def readMachine (value : Text) : Text × Text :=
  ((value.splitOn ',').headD [],
    joined ((value.splitOn ',').tail.filter fun option => !isAccel option))

def Arg.machineValue : Arg → Option Text
  | .machine value => some value
  | _ => none

/-- The device of `net0` with its options, `netdev` apart. -/
def Arg.card : Arg → Option (List Text)
  | .nic device bus =>
      some (device.splitOn ',' ++ (bus.map fun name => text "bus=" ++ name).toList)
  | _ => none

def Arg.driveInterface : Arg → Option Text
  | .disk _ interface _ => some interface
  | _ => none

def Arg.diskBus : Arg → Option Text
  | .diskDevice (.virtioBlkPci _) => some (text "virtio")
  | .diskDevice .virtioBlkDevice => some (text "virtio")
  | .diskDevice .ahci => some (text "sata")
  | _ => none

def Arg.videoDevice : Arg → Option Text
  | .video device => some device
  | .vga value => some value
  | _ => none

def Arg.rngBus : Arg → Option Text
  | .rng bus => some bus
  | _ => none

/-- The interface of the main disk: of its own device, else of its drive. -/
def mainInterface (args : List Arg) : List Text :=
  if args.filterMap Arg.diskBus = [] then args.filterMap Arg.driveInterface
  else args.filterMap Arg.diskBus

/-! ## The command line without its plain options -/

/-- The argument is not just an option with a text of its own. -/
def Arg.isOwn : Arg → Bool
  | .flag _ => false
  | .opt _ _ => false
  | _ => true

/-- What is left of `riscv64Args` with no install media. -/
def riscv64Own (env : Env) (qcow nic : Text) : List Arg :=
  if env.os = .netbsd then
    [.machine (text "virt,accel=tcg,usb=on,acpi=off"),
      .nic (env.netbsdCtrlVqOff (text "virtio-net-device")) none,
      disk0 qcow, .diskDevice .virtioBlkDevice]
  else
    [.machine (text "virt,accel=tcg,usb=on,acpi=off"), .nic nic none,
      .balloon, .disk qcow (text "virtio") discard]

/-- What is left of `pcArgs` with no install media. -/
def pcOwn (env : Env) (host : Host) (qcow nic : Text) : List Arg :=
  [.machine (pcMachine env (qemuAccel env host)), .nic nic none] ++
  (if env.os ≠ .reactos then [.balloon] else []) ++
  (if env.diskIf = text "sata" then [disk0 qcow, .diskDevice .ahci]
    else [.disk qcow env.diskIf discard]) ++
  [.vga env.vgaType]

/-- What is left of the branch for the architecture. -/
def essence (env : Env) (host : Host) : List Arg :=
  let qcow := wf (env .VM_OS_NAME ++ text ".qcow2")
  let accel := qemuAccel env host
  match env.arch with
  | .aarch64 =>
      [.machine (aarch64Machine env accel), .nic env.netCard none,
        .video (aarch64Video env.vgaType), disk0 qcow, bootDisk false]
  | .riscv64 => riscv64Own env qcow env.netCard
  | .loongarch64 =>
      [.machine (text "virt,accel=" ++ accel.name), .nic env.netCard none,
        disk0 qcow, bootDisk false]
  | .s390x =>
      [.machine (text "s390-ccw-virtio,accel=tcg"), .nic env.netCard none,
        .rng (text "ccw"), .disk qcow (text "virtio") discard]
  | .sparc64 =>
      [.machine (sparc64Machine env), .vga (text "none"),
        .nic (orElse (env .VM_NIC) (text "sunhme")) (some (text "pciB")),
        .disk qcow (text "ide") (text ",index=0")]
  | .powerpc =>
      [.machine (powerpcMachine accel), .nic env.netCard none, disk0 qcow,
        bootDisk false]
  | .armv7 =>
      [.machine (text "raspi2b"), .disk qcow (text "sd") [],
        .nic env.netCard none]
  | .x86_64 | .i386 | .other => pcOwn env host qcow env.netCard

/-- The random number generator that most guests get. -/
def commonRng (env : Env) : List Arg :=
  if env.os ≠ .solaris ∧ env.os ≠ .reactos ∧ env.arch ≠ .sparc64 ∧
      env.arch ≠ .s390x ∧ env.arch ≠ .armv7 then [.rng (text "pci")] else []

theorem commonArgs_own (env : Env) (host : Host) :
    (commonArgs env host).filter Arg.isOwn = commonRng env := by
  have hbios : (if env .VM_BIOS ≠ [] then [Arg.opt (text "-bios") (env .VM_BIOS)]
      else []).filter Arg.isOwn = [] := by
    split <;> rfl
  have hrng : (commonRng env).filter Arg.isOwn = commonRng env := by
    unfold commonRng
    split <;> rfl
  rw [commonArgs, List.filter_append, List.filter_append, hbios,
    List.append_nil]
  exact hrng

theorem lastArgs_own (env : Env) (host : Host) :
    (lastArgs env host none).filter Arg.isOwn = [] := by
  simp only [lastArgs, List.filter_append, List.append_eq_nil_iff]
  refine ⟨⟨⟨?_, rfl⟩, rfl⟩, ?_⟩
  · split
    · split <;> rfl
    · rfl
  · split <;> rfl

theorem aarch64Args_own (env : Env) (host : Host) (qcow nic : Text) :
    (aarch64Args env host qcow nic none).filter Arg.isOwn =
      [.machine (aarch64Machine env (qemuAccel env host)), .nic nic none,
        .video (aarch64Video env.vgaType), disk0 qcow, bootDisk false] := by
  unfold aarch64Args
  by_cases hconsole : env .VM_USE_CONSOLE_BUILD = [] <;>
    simp only [hconsole] <;> rfl

theorem riscv64Args_own (env : Env) (host : Host) (qcow nic : Text) :
    (riscv64Args env host qcow nic none).filter Arg.isOwn =
      riscv64Own env qcow nic := by
  unfold riscv64Args riscv64Own
  by_cases hnb : env.os = .netbsd
  · simp only [hnb]
    rfl
  · simp only [hnb]
    rfl

theorem loongarch64Args_own (env : Env) (host : Host) (qcow nic : Text) :
    (loongarch64Args env host qcow nic none).filter Arg.isOwn =
      [.machine (text "virt,accel=" ++ (qemuAccel env host).name), .nic nic none,
        disk0 qcow, bootDisk false] := by
  unfold loongarch64Args
  split
  · cases host.loongarchFirmware <;> rfl
  · rfl

theorem pcArgs_own (env : Env) (host : Host) (qcow nic : Text) :
    (pcArgs env host qcow nic none).filter Arg.isOwn = pcOwn env host qcow nic := by
  unfold pcArgs pcOwn
  by_cases hkvm : qemuAccel env host = .kvm <;>
    by_cases hos : env.os = .reactos <;>
    by_cases hsata : env.diskIf = text "sata" <;>
    simp only [hkvm, hos, hsata, ne_eq] <;> rfl

theorem archArgs_own (env : Env) (host : Host) :
    ∃ args, archArgs env host none = some args ∧
      args.filter Arg.isOwn = essence env host := by
  unfold archArgs essence
  cases env.arch with
  | aarch64 => exact ⟨_, rfl, aarch64Args_own ..⟩
  | riscv64 => exact ⟨_, rfl, riscv64Args_own ..⟩
  | loongarch64 => exact ⟨_, rfl, loongarch64Args_own ..⟩
  | s390x | sparc64 | powerpc | armv7 => exact ⟨_, rfl, rfl⟩
  | x86_64 | i386 | other => exact ⟨_, rfl, pcArgs_own ..⟩

/-- The arguments that a guest built from its disk has of its own. -/
def ownArgs (env : Env) (host : Host) : List Arg :=
  commonRng env ++ essence env host

theorem buildQemuArgs_own (env : Env) (host : Host) :
    ∃ args, buildQemuArgs env host none = some args ∧
      args.filter Arg.isOwn = ownArgs env host := by
  obtain ⟨args, hargs, hown⟩ := archArgs_own env host
  refine ⟨commonArgs env host ++ args ++ lastArgs env host none, ?_, ?_⟩
  · rw [buildQemuArgs, hargs, Option.map_some]
  · rw [List.filter_append, List.filter_append, commonArgs_own, hown,
      lastArgs_own, List.append_nil, ownArgs]

/-- A reader that passes over plain options reads the same without them. -/
theorem reads_own {β : Type} (f : Arg → Option β)
    (hflag : ∀ name, f (.flag name) = none)
    (hopt : ∀ name value, f (.opt name value) = none) (args : List Arg) :
    (args.filter Arg.isOwn).filterMap f = args.filterMap f := by
  induction args with
  | nil => rfl
  | cons arg args ih =>
      cases arg with
      | flag name =>
          rw [List.filterMap_cons_none (hflag name), ← ih]
          rfl
      | opt name value =>
          rw [List.filterMap_cons_none (hopt name value), ← ih]
          rfl
      | _ =>
          rw [List.filter_cons_of_pos rfl, List.filterMap_cons, List.filterMap_cons, ih]

/-- A reader that passes over the generators reads the branch only. -/
theorem filterMap_ownArgs {β : Type} (f : Arg → Option β)
    (skips : ∀ bus, f (.rng bus) = none) (env : Env) (host : Host) :
    (ownArgs env host).filterMap f = (essence env host).filterMap f := by
  unfold ownArgs commonRng
  split
  · rw [List.filterMap_append, List.filterMap_cons, skips]
    rfl
  · rfl

/-! ## What is read from it -/

theorem readMachine_aarch64 (env : Env) (accel : Accel) :
    readMachine (aarch64Machine env accel) =
      (text "virt", text "gic-version=3,usb=on" ++
        if env.obsdAcpiOff || env.netbsd9AcpiOff then text ",acpi=off" else []) := by
  unfold aarch64Machine
  cases env.obsdAcpiOff || env.netbsd9AcpiOff <;> cases accel <;> decide

theorem readMachine_riscv64 :
    readMachine (text "virt,accel=tcg,usb=on,acpi=off") =
      (text "virt", text "usb=on,acpi=off") := by
  decide

theorem readMachine_loongarch64 (accel : Accel) :
    readMachine (text "virt,accel=" ++ accel.name) = (text "virt", []) := by
  cases accel <;> decide

theorem readMachine_sparc64 (env : Env) :
    readMachine (sparc64Machine env) =
      (text "sun4u", if env.os = .openbsd then text "usb=off" else []) := by
  unfold sparc64Machine
  split <;> decide

theorem readMachine_powerpc (accel : Accel) :
    readMachine (powerpcMachine accel) =
      (text "pseries", text "usb=off,cap-cfpc=broken,cap-sbbc=broken," ++
        text "cap-ibs=broken,cap-ccf-assist=off") := by
  cases accel <;> decide

theorem readMachine_pc (env : Env) (accel : Accel) :
    readMachine (pcMachine env accel) =
      if env.os = .hurd then
        (if env.arch = .i386 then text "pc" else text "q35",
          text "smm=off,graphics=on,vmport=off,usb=on")
      else (text "pc", text "hpet=off,smm=off,graphics=on,vmport=off,usb=on") := by
  unfold pcMachine
  by_cases hhurd : env.os = .hurd
  · by_cases hi386 : env.arch = .i386 <;> simp only [hhurd, hi386] <;>
      cases accel <;> decide
  · rw [if_neg hhurd, if_neg hhurd]
    cases accel <;> decide

theorem riscv64Own_machine (env : Env) (qcow nic : Text) :
    (riscv64Own env qcow nic).filterMap Arg.machineValue =
      [text "virt,accel=tcg,usb=on,acpi=off"] := by
  unfold riscv64Own
  split <;> rfl

theorem pcOwn_machine (env : Env) (host : Host) (qcow nic : Text) :
    (pcOwn env host qcow nic).filterMap Arg.machineValue =
      [pcMachine env (qemuAccel env host)] := by
  unfold pcOwn
  split <;> split <;> rfl

theorem riscv64Own_rng (env : Env) (qcow nic : Text) :
    (riscv64Own env qcow nic).filterMap Arg.rngBus = [] := by
  unfold riscv64Own
  split <;> rfl

theorem pcOwn_rng (env : Env) (host : Host) (qcow nic : Text) :
    (pcOwn env host qcow nic).filterMap Arg.rngBus = [] := by
  unfold pcOwn
  split <;> split <;> rfl

theorem essence_rng (env : Env) (host : Host) :
    (essence env host).filterMap Arg.rngBus =
      if env.arch = .s390x then [text "ccw"] else [] := by
  unfold essence
  cases env.arch with
  | riscv64 => exact riscv64Own_rng ..
  | x86_64 | i386 | other => exact pcOwn_rng ..
  | _ => rfl

theorem balloon_mem (env : Env) (host : Host) :
    Arg.balloon ∈ ownArgs env host ↔
      (env.arch = .riscv64 ∧ env.os ≠ .netbsd) ∨
        (env.arch ∈ [.x86_64, .i386, .other] ∧ env.os ≠ .reactos) := by
  have hcommon : Arg.balloon ∉ commonRng env := by
    unfold commonRng
    split <;> simp
  rw [ownArgs, List.mem_append, or_iff_right hcommon]
  unfold essence
  cases harch : env.arch with
  | riscv64 => by_cases hnb : env.os = .netbsd <;> simp [riscv64Own, hnb, disk0]
  | x86_64 | i386 | other =>
      by_cases hsata : env.diskIf = text "sata" <;> simp [pcOwn, hsata, disk0]
  | _ => simp [disk0, bootDisk]

/-- The devices of the video that the command line gives. -/
def emittedVideo (env : Env) : List Text :=
  match env.arch with
  | .aarch64 => [aarch64Video env.vgaType]
  | .sparc64 => [text "none"]
  | .x86_64 | .i386 | .other => [env.vgaType]
  | .riscv64 | .loongarch64 | .s390x | .powerpc | .armv7 => []

theorem riscv64Own_video (env : Env) (qcow nic : Text) :
    (riscv64Own env qcow nic).filterMap Arg.videoDevice = [] := by
  unfold riscv64Own
  split <;> rfl

theorem pcOwn_video (env : Env) (host : Host) (qcow nic : Text) :
    (pcOwn env host qcow nic).filterMap Arg.videoDevice = [env.vgaType] := by
  unfold pcOwn
  split <;> split <;> rfl

theorem ownArgs_video (env : Env) (host : Host) :
    (ownArgs env host).filterMap Arg.videoDevice = emittedVideo env := by
  rw [filterMap_ownArgs Arg.videoDevice (fun _ => rfl)]
  unfold essence emittedVideo
  cases env.arch with
  | riscv64 => exact riscv64Own_video ..
  | x86_64 | i386 | other => exact pcOwn_video ..
  | _ => rfl

/-- The interface of the main disk on the command line. -/
def attachedInterface (env : Env) : Text :=
  match env.arch with
  | .aarch64 | .riscv64 | .loongarch64 | .s390x | .powerpc => text "virtio"
  | .sparc64 => text "ide"
  | .armv7 => text "sd"
  | .x86_64 | .i386 | .other => env.diskIf

theorem riscv64Own_interface (env : Env) (qcow nic : Text) :
    mainInterface (riscv64Own env qcow nic) = [text "virtio"] := by
  unfold riscv64Own
  split <;> rfl

theorem pcOwn_interface (env : Env) (host : Host) (qcow nic : Text) :
    mainInterface (pcOwn env host qcow nic) = [env.diskIf] := by
  unfold pcOwn
  by_cases hsata : env.diskIf = text "sata"
  · rw [if_pos hsata, hsata]
    split <;> rfl
  · rw [if_neg hsata]
    split <;> rfl

theorem ownArgs_interface (env : Env) (host : Host) :
    mainInterface (ownArgs env host) = [attachedInterface env] := by
  have hessence : mainInterface (ownArgs env host) =
      mainInterface (essence env host) := by
    simp only [mainInterface, filterMap_ownArgs Arg.diskBus (fun _ => rfl),
      filterMap_ownArgs Arg.driveInterface (fun _ => rfl)]
  rw [hessence]
  unfold essence attachedInterface
  cases env.arch with
  | riscv64 => exact riscv64Own_interface ..
  | x86_64 | i386 | other => exact pcOwn_interface ..
  | _ => rfl

/-- The options of the device of `net0` on the command line. -/
def wiredCard (env : Env) : List Text :=
  if env.arch = .sparc64 then
    (orElse (env .VM_NIC) (text "sunhme")).splitOn ',' ++ [text "bus=pciB"]
  else if env.arch = .riscv64 ∧ env.os = .netbsd then
    (env.netbsdCtrlVqOff (text "virtio-net-device")).splitOn ','
  else env.netCard.splitOn ','

theorem riscv64Own_card (env : Env) (qcow nic : Text) :
    (riscv64Own env qcow nic).filterMap Arg.card =
      [(if env.os = .netbsd then env.netbsdCtrlVqOff (text "virtio-net-device")
        else nic).splitOn ','] := by
  unfold riscv64Own
  split <;> simp [List.filterMap_cons, Arg.card, disk0]

theorem pcOwn_card (env : Env) (host : Host) (qcow nic : Text) :
    (pcOwn env host qcow nic).filterMap Arg.card = [nic.splitOn ','] := by
  unfold pcOwn
  split <;> split <;> simp [List.filterMap_cons, Arg.card, disk0]

theorem ownArgs_card (env : Env) (host : Host) :
    (ownArgs env host).filterMap Arg.card = [wiredCard env] := by
  rw [filterMap_ownArgs Arg.card (fun _ => rfl)]
  unfold essence wiredCard
  cases env.arch with
  | riscv64 =>
      rw [riscv64Own_card]
      by_cases hnb : env.os = .netbsd <;> simp [hnb]
  | x86_64 | i386 | other => simp [pcOwn_card]
  | sparc64 =>
      have hbus : text "bus=" ++ text "pciB" = text "bus=pciB" := by decide
      simp [List.filterMap_cons, Arg.card, hbus]
  | _ => simp [List.filterMap_cons, Arg.card, disk0, bootDisk]

end RiscosBuilder.Build
