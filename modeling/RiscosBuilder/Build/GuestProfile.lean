import RiscosBuilder.Build.Environment

/-!
# The published profile

`build_guest_profile` of `build.py`, which decides once more what hardware a
guest has, for whoever runs the finished image.
-/

namespace RiscosBuilder.Build

/-- The transports of the random number generator that a profile can name. -/
inductive Rng where
  | pci
  | ccw
  | mmio
  | absent
  deriving DecidableEq, Repr

/-- The profile; `machineType` and the like are its keys in the host's case. -/
structure Profile where
  anyvmProfileVersion : Nat
  os : Text
  arch : Text
  release : Text
  machineType : Text
  machineOpts : Text
  cpuModel : Option Text
  diskIf : Text
  virtioTransport : Text
  netCard : Text
  netBus : Option Text
  vga : Option Text
  rng : Rng
  firmwareKind : Text
  qemuMinVersion : Option Text
  balloon : Bool
  rtcBase : Text
  console : Bool
  transport : Text
  memCapMb : Option Nat
  cpuCap : Option Nat
  kernelAsset : Option Text
  kernelAppend : Option Text
  deriving DecidableEq, Repr

def GUEST_PROFILE_VERSION : Nat := 1

section

variable (env : Env)

/-- `_profile_machine`. -/
def profileMachine : Text × Text :=
  match env.arch with
  | .aarch64 =>
      (text "virt", text "gic-version=3,usb=on" ++
        if env.obsdAcpiOff || env.netbsd9AcpiOff then text ",acpi=off" else [])
  | .riscv64 => (text "virt", text "usb=on,acpi=off")
  | .armv7 => (text "raspi2b", [])
  | .loongarch64 => (text "virt", [])
  | .s390x => (text "s390-ccw-virtio", [])
  | .sparc64 =>
      (text "sun4u", if env.os = .openbsd then text "usb=off" else [])
  | .powerpc =>
      (text "pseries", text "usb=off,cap-cfpc=broken,cap-sbbc=broken," ++
        text "cap-ibs=broken,cap-ccf-assist=off")
  | .x86_64 | .i386 | .other =>
      if env.os = .hurd then
        (if env.arch = .i386 then text "pc" else text "q35",
          text "smm=off,graphics=on,vmport=off,usb=on")
      else if env .VM_MICROVM ≠ [] then
        (text "microvm", text "rtc=on,acpi=off,pic=off")
      else (text "pc", text "hpet=off,smm=off,graphics=on,vmport=off,usb=on")

/-- `_profile_cpu_model`. -/
def profileCpuModel : Option Text :=
  if env .VM_CPU_MODEL ≠ [] then some (env .VM_CPU_MODEL)
  else
    match env.arch with
    | .aarch64 =>
        some (if env.os = .openbsd then text "neoverse-n1" else text "max")
    | .riscv64 => some (text "rv64")
    | .loongarch64 => some (text "la464")
    | .s390x => some (text "qemu")
    | .powerpc => some (text "power9")
    | _ => none

/-- `_profile_rng`. -/
def profileRng : Rng :=
  if env.arch = .s390x then .ccw
  else if env .VM_MICROVM ≠ [] then .mmio
  else if env.os = .solaris ∨ env.os = .reactos ∨ env.arch = .sparc64 ∨
      env.arch = .armv7 then .absent
  else .pci

/-- `_profile_firmware_kind`. -/
def profileFirmwareKind : Text :=
  if env .VM_BIOS ≠ [] then text "bios"
  else
    match env.arch with
    | .aarch64 => text "edk2-pflash"
    | .riscv64 => text "uboot"
    | .loongarch64 => text "edk2-bios"
    | _ => text "default"

/-- What `\d+\.\d+(?:\.\d+)?` matches at the front. -/
def versionAt (source : Text) : Option Text :=
  let major := source.takeWhile Char.isDigit
  match source.dropWhile Char.isDigit with
  | '.' :: rest =>
      let minor := rest.takeWhile Char.isDigit
      if major = [] ∨ minor = [] then none
      else
        match rest.dropWhile Char.isDigit with
        | '.' :: rest =>
            let patch := rest.takeWhile Char.isDigit
            if patch = [] then some (major ++ '.' :: minor)
            else some (major ++ '.' :: minor ++ '.' :: patch)
        | _ => some (major ++ '.' :: minor)
  | _ => none

/-- `re.search` for `qemu-` with a version behind it: the version. -/
def searchVersion : Text → Option Text
  | [] => none
  | first :: rest =>
      if text "qemu-" <+: first :: rest then
        (versionAt (rest.drop 4)).or (searchVersion rest)
      else searchVersion rest

/-- `_profile_qemu_min_version`. -/
def profileQemuMinVersion : Option Text :=
  searchVersion (orElse (env .VM_QEMU_TAR) (env .VM_QEMU_BIN))

/-- `_profile_balloon`. -/
def profileBalloon : Bool :=
  if env .VM_MICROVM ≠ [] then false
  else if env.os = .reactos then false
  else if env.arch = .x86_64 ∨ env.arch = .i386 then true
  else decide (env.arch = .riscv64 ∧ env.os ≠ .netbsd)

/-- `mmio`. -/
def profileMmio : Bool :=
  decide (env.os = .netbsd ∧ env.arch = .riscv64) || decide (env .VM_MICROVM ≠ [])

/-- `nic`, with the MMIO name of a card that has a PCI name. -/
def profileNic : Text :=
  if env .VM_MICROVM ≠ [] then env.netbsdCtrlVqOff (text "virtio-net-device")
  else if profileMmio env = true ∧ text "virtio-net-pci" <+: env.netCard then
    text "virtio-net-device" ++ env.netCard.drop (text "virtio-net-pci").length
  else env.netCard

/-- `vga`. -/
def profileVga : Option Text :=
  match env.arch with
  | .sparc64 => some (text "none")
  | .riscv64 | .loongarch64 | .s390x | .powerpc => none
  | .aarch64 =>
      if [text "virtio", text "virtio-gpu", text "std", []].contains env.vgaType then
        some (text "virtio-gpu-pci")
      else some env.vgaType
  | .x86_64 | .i386 | .armv7 | .other =>
      if env .VM_MICROVM ≠ [] then none else some env.vgaType

/-- The message for a microvm without an append line. -/
def appendMissing : Text :=
  text "VM_MICROVM is set but VM_MICROVM_APPEND is empty; the conf must provide " ++
  text "the kernel append line (e.g. root=dk0 console=com rw)"

/-- `profile`, without what is added for a microvm. -/
def plainProfile : Profile where
  anyvmProfileVersion := GUEST_PROFILE_VERSION
  os := env .VM_OS_NAME
  arch := env.archName
  release := env .VM_RELEASE
  machineType := (profileMachine env).1
  machineOpts := (profileMachine env).2
  cpuModel := profileCpuModel env
  diskIf := if env.arch = .sparc64 then text "ide" else env.diskIf
  virtioTransport := if profileMmio env then text "mmio" else text "pci"
  netCard := profileNic env
  netBus := if env.arch = .sparc64 then some (text "pciB") else none
  vga := profileVga env
  rng := profileRng env
  firmwareKind := profileFirmwareKind env
  qemuMinVersion := profileQemuMinVersion env
  balloon := profileBalloon env
  rtcBase := env.rtcBase
  console := decide (env .VM_USE_CONSOLE_BUILD ≠ [])
  transport := if env .VM_TRANSPORT = text "telnet" then text "telnet" else text "ssh"
  memCapMb :=
    if env.os = .hurd ∧ env.arch = .i386 then some 2048
    else if env.arch = .sparc64 then
      some (if env.os = .openbsd then 1024 else 2048)
    else none
  cpuCap :=
    if env.os = .hurd ∨ env.arch = .sparc64 then some 1 else none
  kernelAsset := none
  kernelAppend := none

/-- `build_guest_profile`; the error is the text of the `ValueError`. -/
def buildGuestProfile : Except Text Profile :=
  if env .VM_MICROVM = [] then .ok (plainProfile env)
  else if env .VM_MICROVM_APPEND = [] then .error appendMissing
  else
    let suffix := if env.arch = .x86_64 then [] else text "-" ++ env.archName
    .ok { plainProfile env with
      kernelAsset := some (env .VM_OS_NAME ++ text "-" ++ env .VM_RELEASE ++
        suffix ++ text "-kernel")
      kernelAppend := some (env .VM_MICROVM_APPEND) }

end

end RiscosBuilder.Build
