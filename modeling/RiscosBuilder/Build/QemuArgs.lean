import RiscosBuilder.Build.Environment

/-!
# The command line of QEMU

`build_qemu_args` of `build.py`.  An argument knows what it is for; `tokens`
gives the words that it puts on the command line.
-/

namespace RiscosBuilder.Build

/-- What the machine that runs `build.py` contributes. -/
structure Host where
  arch : Text
  kvm : Bool
  hvf : Bool
  nestedAvx512 : Bool
  sstcOff : Bool
  loongarchFirmware : Option Text
  seedExists : Bool
  sshport : Text
  monport : Nat
  serport : Nat
  vncport : Nat

inductive Accel where
  | kvm
  | hvf
  | tcg
  deriving DecidableEq, Repr

def Accel.name : Accel → Text
  | .kvm => text "kvm"
  | .hvf => text "hvf"
  | .tcg => text "tcg"

/-- `qemu_accel`. -/
def qemuAccel (env : Env) (host : Host) : Accel :=
  match env.arch with
  | .riscv64 | .s390x | .loongarch64 => .tcg
  | .aarch64 =>
      if [text "aarch64", text "arm64"].contains host.arch then
        if host.kvm then .kvm else if host.hvf then .hvf else .tcg
      else .tcg
  | .powerpc =>
      if [text "ppc64", text "ppc64le", text "powerpc64",
          text "powerpc64le"].contains host.arch then
        if host.kvm then .kvm else .tcg
      else .tcg
  | _ =>
      if [text "x86_64", text "amd64"].contains host.arch then
        if host.kvm then .kvm else if host.hvf then .hvf else .tcg
      else .tcg

/-- The device that the main disk hangs on when its drive has `if=none`. -/
inductive DiskDevice where
  | virtioBlkPci (bootindex : Nat)
  | virtioBlkDevice
  | ahci
  deriving DecidableEq, Repr

/--
An argument of QEMU with its value.  `disk` is the drive with the main qcow2,
`nic` the device of `net0`, `video` a video device given by `-device`.
-/
inductive Arg where
  | flag (name : Text)
  | opt (name value : Text)
  | machine (value : Text)
  | nic (device : Text) (bus : Option Text)
  | disk (qcow interface more : Text)
  | diskDevice (device : DiskDevice)
  | video (device : Text)
  | vga (value : Text)
  | rng (bus : Text)
  | balloon
  deriving DecidableEq, Repr

def digits (n : Nat) : Text :=
  (toString n).toList

def DiskDevice.tokens : DiskDevice → List Text
  | .virtioBlkPci bootindex =>
      [text "-device",
        text "virtio-blk-pci,drive=disk0,bootindex=" ++ digits bootindex]
  | .virtioBlkDevice => [text "-device", text "virtio-blk-device,drive=disk0"]
  | .ahci =>
      [text "-device", text "ich9-ahci,id=ahci0",
        text "-device", text "ide-hd,bus=ahci0.0,drive=disk0"]

/-- The words of the command line. -/
def Arg.tokens : Arg → List Text
  | .flag name => [name]
  | .opt name value => [name, value]
  | .machine value => [text "-machine", value]
  | .nic device none => [text "-device", device ++ text ",netdev=net0"]
  | .nic device (some bus) =>
      [text "-device", device ++ text ",netdev=net0,bus=" ++ bus]
  | .disk qcow interface more =>
      [text "-drive",
        text "file=" ++ qcow ++ text ",format=qcow2,if=" ++ interface ++ more]
  | .diskDevice device => device.tokens
  | .video device => [text "-device", device]
  | .vga value => [text "-vga", value]
  | .rng bus =>
      [text "-object", text "rng-builtin,id=rng0", text "-device",
        text "virtio-rng-" ++ bus ++ text ",rng=rng0,max-bytes=1024,period=1000"]
  | .balloon => [text "-device", text "virtio-balloon-pci"]

/-- `media_kind`, with `media_path`. -/
inductive Media where
  | cdrom (path : Text)
  | disk (path : Text)
  deriving DecidableEq, Repr

def device (value : String) : Arg :=
  .opt (text "-device") (text value)

def drive (value : Text) : Arg :=
  .opt (text "-drive") value

/-- `wf`. -/
def wf (name : Text) : Text :=
  text "build/" ++ name

/-- The options of a drive that discards. -/
def discard : Text :=
  text ",discard=unmap,detect-zeroes=unmap"

/-- The main disk as `disk0`, to which a device is still to be attached. -/
def disk0 (qcow : Text) : Arg :=
  .disk qcow (text "none") (text ",id=disk0" ++ discard)

section Branches

variable (env : Env) (host : Host) (qcow nic : Text) (media : Option Media)

/-- `mopts` of aarch64. -/
def aarch64Machine (accel : Accel) : Text :=
  text "virt,accel=" ++ accel.name ++ text ",gic-version=3,usb=on" ++
    if env.obsdAcpiOff || env.netbsd9AcpiOff then text ",acpi=off" else []

/-- `sparc_mopts`. -/
def sparc64Machine : Text :=
  text "sun4u" ++ if env.os = .openbsd then text ",usb=off" else []

/-- `mopts` of pseries. -/
def powerpcMachine (accel : Accel) : Text :=
  text "pseries,accel=" ++ accel.name ++
    text ",usb=off,cap-cfpc=broken,cap-sbbc=broken,cap-ibs=broken" ++
    text ",cap-ccf-assist=off"

/-- `pc_mopts`. -/
def pcMachine (accel : Accel) : Text :=
  if env.os = .hurd then
    (if env.arch = .i386 then text "pc" else text "q35") ++ text ",accel=" ++
      accel.name ++ text ",smm=off,graphics=on,vmport=off,usb=on"
  else
    text "pc,accel=" ++ accel.name ++
      text ",hpet=off,smm=off,graphics=on,vmport=off,usb=on"

/-- What all guests have in front. -/
def commonArgs : List Arg :=
  let osname := env .VM_OS_NAME
  let control := if env .VM_TRANSPORT = text "telnet" then text "23" else text "22"
  let drift := if env.os = .reactos ∨ env.os = .riscos then []
    else text ",driftfix=slew"
  let forward := if env .VM_9P_PORT = [] then []
    else text ",hostfwd=tcp:127.0.0.1:" ++ env .VM_9P_PORT ++
      text "-192.168.122.254:564"
  [.opt (text "-chardev")
      (text "socket,id=serial0,host=127.0.0.1,port=" ++ digits host.serport ++
        text ",server=on,wait=off,logfile=" ++ wf (osname ++ text ".serial.log")),
    .opt (text "-serial") (text "chardev:serial0"),
    .opt (text "-monitor")
      (text "tcp:127.0.0.1:" ++ digits host.monport ++
        text ",server,nowait,nodelay"),
    .opt (text "-name") osname,
    .opt (text "-m") (orElse (env .VM_MEMORY) (text "6144")),
    .opt (text "-smp") (orElse (env .VM_CPU) (text "2")),
    .opt (text "-rtc") (text "base=" ++ env.rtcBase ++ text ",clock=host" ++ drift),
    .opt (text "-netdev")
      (text "user,id=net0,net=192.168.122.0/24,host=192.168.122.1," ++
        text "dhcpstart=192.168.122.254,ipv6=off,hostfwd=tcp:127.0.0.1:" ++
        host.sshport ++ text "-192.168.122.254:" ++ control ++ forward)] ++
  (if env.os ≠ .solaris ∧ env.os ≠ .reactos ∧ env.arch ≠ .sparc64 ∧
      env.arch ≠ .s390x ∧ env.arch ≠ .armv7 then [.rng (text "pci")] else []) ++
  (if env .VM_BIOS ≠ [] then [.opt (text "-bios") (env .VM_BIOS)] else [])

/-- A virtio disk that boots behind the install media. -/
def bootDisk (behind : Bool) : Arg :=
  .diskDevice (.virtioBlkPci (if behind then 1 else 0))

/-- The video device of aarch64. -/
def aarch64Video (vga : Text) : Text :=
  if [text "virtio", text "virtio-gpu", text "std", []].contains vga then
    text "virtio-gpu-pci"
  else vga

def aarch64Args : List Arg :=
  let osname := env .VM_OS_NAME
  let accel := qemuAccel env host
  let cpu := if accel = .kvm ∨ accel = .hvf then text "host"
    else if env.os = .openbsd then text "neoverse-n1" else text "max"
  [.machine (aarch64Machine env accel),
    .opt (text "-cpu") (orElse (env .VM_CPU_MODEL) cpu),
    device "qemu-xhci", .nic nic none,
    drive (text "if=pflash,format=raw,readonly=on,file=" ++
      wf (osname ++ text "-QEMU_EFI.fd")),
    drive (text "if=pflash,format=raw,file=" ++
      wf (osname ++ text "-QEMU_EFI_VARS.fd") ++ text ",unit=1"),
    .video (aarch64Video env.vgaType), disk0 qcow] ++
  (match media with
    | some (.disk path) =>
        [drive (text "file=" ++ path ++ text ",format=raw,if=none,id=inst0"),
          device "virtio-blk-pci,drive=inst0,bootindex=0", bootDisk true]
    | some (.cdrom path) =>
        [drive (text "file=" ++ path ++
            text ",format=raw,if=none,id=inst0,media=cdrom"),
          device "usb-storage,drive=inst0,bootindex=0", bootDisk true]
    | none => [bootDisk false]) ++
  (if env .VM_USE_CONSOLE_BUILD = [] then
    [device "usb-kbd", device "virtio-tablet-pci"] else [])

def riscv64Args : List Arg :=
  let nb := env.os = .netbsd
  [.machine (text "virt,accel=tcg,usb=on,acpi=off"),
    .opt (text "-cpu")
      (if env .VM_CPU_MODEL = [] ∧ host.sstcOff = true then text "rv64,sstc=off"
        else orElse (env .VM_CPU_MODEL) (text "rv64")),
    device "qemu-xhci",
    .nic (if nb then env.netbsdCtrlVqOff (text "virtio-net-device") else nic) none] ++
  (if nb then [] else [.balloon]) ++
  [.opt (text "-kernel")
    (orElse (env .VM_UBOOT) (text "/usr/lib/u-boot/qemu-riscv64_smode/uboot.elf"))] ++
  (match media with
    | some (.disk path) =>
        if nb then
          [drive (text "file=" ++ path ++ text ",format=raw,if=none,id=inst0"),
            device "virtio-blk-device,drive=inst0"]
        else [drive (text "file=" ++ path ++ text ",format=raw,if=virtio")]
    | some (.cdrom path) =>
        [drive (text "file=" ++ path ++
            text ",format=raw,if=none,id=inst0,media=cdrom"),
          device "usb-storage,drive=inst0"]
    | none => []) ++
  (if nb then [disk0 qcow, .diskDevice .virtioBlkDevice]
    else [.disk qcow (text "virtio") discard])

/-- The media and the main disk where both are virtio disks of a PCI bus. -/
def pciDiskArgs : List Arg :=
  match media with
  | some (.disk path) =>
      [drive (text "file=" ++ path ++ text ",format=raw,if=none,id=inst0"),
        device "virtio-blk-pci,drive=inst0,bootindex=0", bootDisk true]
  | some (.cdrom path) =>
      [drive (text "file=" ++ path ++
          text ",format=raw,if=none,id=inst0,media=cdrom"),
        device "virtio-scsi-pci,id=scsi0",
        device "scsi-cd,bus=scsi0.0,drive=inst0,bootindex=0", bootDisk true]
  | none => [bootDisk false]

def loongarch64Args : List Arg :=
  [.machine (text "virt,accel=" ++ (qemuAccel env host).name),
    .opt (text "-cpu") (orElse (env .VM_CPU_MODEL) (text "la464"))] ++
  (if env .VM_BIOS = [] then
    (host.loongarchFirmware.map (.opt (text "-bios"))).toList else []) ++
  [.nic nic none, disk0 qcow] ++ pciDiskArgs media

def s390xArgs : List Arg :=
  [.machine (text "s390-ccw-virtio,accel=tcg"),
    .opt (text "-cpu") (orElse (env .VM_CPU_MODEL) (text "qemu")),
    .nic nic none, .rng (text "ccw")] ++
  (match media with
    | some (.disk path) =>
        [drive (text "file=" ++ path ++ text ",format=raw,if=virtio")]
    | some (.cdrom path) =>
        [drive (text "file=" ++ path ++
            text ",format=raw,if=none,id=inst0,media=cdrom"),
          device "virtio-scsi-ccw,id=scsi0",
          device "scsi-cd,bus=scsi0.0,drive=inst0,bootindex=0"]
    | none => []) ++
  [.disk qcow (text "virtio") discard]

def sparc64Args : List Arg :=
  [.machine (sparc64Machine env), .vga (text "none"),
    .nic (orElse (env .VM_NIC) (text "sunhme")) (some (text "pciB")),
    .disk qcow (text "ide") (text ",index=0")] ++
  (match media with
    | some (.cdrom path) =>
        [drive (text "file=" ++ path ++
            text ",format=raw,if=ide,index=2,media=cdrom"),
          .opt (text "-boot") (text "order=d")] ++
        (if env.os = .openbsd then
          [.opt (text "-prom-env") (text "boot-file=bsd -c")] else [])
    | some (.disk path) =>
        [drive (text "file=" ++ path ++ text ",format=raw,if=ide,index=2"),
          .opt (text "-boot") (text "order=c")]
    | none => [.opt (text "-boot") (text "order=c")])

def powerpcArgs : List Arg :=
  [.machine (powerpcMachine (qemuAccel env host)),
    .opt (text "-cpu") (orElse (env .VM_CPU_MODEL) (text "power9")),
    .nic nic none, disk0 qcow] ++ pciDiskArgs media

/-- `none` is the exit for install media, which the board cannot hold. -/
def armv7Args : Option (List Arg) :=
  match media with
  | none => some [.machine (text "raspi2b"), .disk qcow (text "sd") [], .nic nic none]
  | some _ => none

/-- The CPU of a PC-class guest, without what is added under KVM and HVF. -/
def pcCpu : Text :=
  if env .VM_CPU_MODEL ≠ [] then env .VM_CPU_MODEL
  else
    match qemuAccel env host with
    | .kvm =>
        if env.os = .dragonflybsd then text "Broadwell-v4,+hypervisor,+invtsc"
        else
          text "host,kvm=on,l3-cache=on,+hypervisor,migratable=no,+invtsc" ++
          (if host.nestedAvx512 then
            text ",-avx512f,-avx512dq,-avx512ifma,-avx512cd" ++
            text ",-avx512bw,-avx512vl,-avx512vbmi,-avx512vbmi2" ++
            text ",-avx512vnni,-avx512bitalg,-avx512-vpopcntdq" ++
            text ",-avx512-bf16,-avx512-fp16,-avx512-vp2intersect"
          else [])
    | .hvf => text "host,+rdrand,+rdseed"
    | .tcg => text "qemu64,+rdrand,+rdseed"

def pcArgs : List Arg :=
  let accel := qemuAccel env host
  let dif := env.diskIf
  let pmu := if accel = .kvm ∨ accel = .hvf then text ",pmu=off" else []
  [.machine (pcMachine env accel),
    .opt (text "-cpu") (pcCpu env host ++ pmu)] ++
  (if accel = .kvm then
    [.opt (text "-global") (text "kvm-pit.lost_tick_policy=delay")] else []) ++
  [.nic nic none] ++
  (if env.os ≠ .reactos then [.balloon] else []) ++
  (if dif = text "sata" then [disk0 qcow, .diskDevice .ahci]
    else [.disk qcow dif discard]) ++
  (match media with
    | some (.cdrom path) =>
        (if dif = text "ide" then [.opt (text "-cdrom") path]
          else [drive (text "file=" ++ path ++
            text ",format=raw,if=ide,index=0,media=cdrom")]) ++
        [.opt (text "-boot") (text "order=dc,menu=off")]
    | some (.disk path) =>
        [drive (text "file=" ++ path ++ text ",format=raw,if=ide")]
    | none => []) ++
  [.vga env.vgaType]

/-- What comes last: the seed, `-no-reboot`, the display and the tablet. -/
def lastArgs : List Arg :=
  let seed := env .VM_SEED_ISO
  (if seed ≠ [] ∧ host.seedExists = true then
    if env.arch = .aarch64 then
      [drive (text "file=" ++ seed ++ text ",format=raw,if=none,id=seed0,media=cdrom"),
        device "usb-storage,drive=seed0"]
    else [drive (text "file=" ++ seed ++ text ",format=raw,if=ide,index=2,media=cdrom")]
  else []) ++
  (match media with
    | some (.cdrom _) =>
        if env .VM_QEMU_NO_REBOOT ≠ [] then [.flag (text "-no-reboot")] else []
    | _ => []) ++
  [.opt (text "-display")
    (text "vnc=127.0.0.1:" ++ (toString ((host.vncport : Int) - 5900)).toList)] ++
  (if env .VM_USE_CONSOLE_BUILD = [] ∧ env.arch ≠ .aarch64 then
    [device "usb-tablet"] else [])

end Branches

/-- The branch for the architecture. -/
def archArgs (env : Env) (host : Host) (media : Option Media) :
    Option (List Arg) :=
  let qcow := wf (env .VM_OS_NAME ++ text ".qcow2")
  let nic := env.netCard
  match env.arch with
  | .aarch64 => some (aarch64Args env host qcow nic media)
  | .riscv64 => some (riscv64Args env host qcow nic media)
  | .loongarch64 => some (loongarch64Args env host qcow nic media)
  | .s390x => some (s390xArgs env qcow nic media)
  | .sparc64 => some (sparc64Args env qcow media)
  | .powerpc => some (powerpcArgs env host qcow nic media)
  | .armv7 => armv7Args qcow nic media
  | .x86_64 | .i386 | .other => some (pcArgs env host qcow nic media)

/-- `build_qemu_args`; `none` when it ends the build. -/
def buildQemuArgs (env : Env) (host : Host) (media : Option Media) :
    Option (List Arg) :=
  (archArgs env host media).map fun args =>
    commonArgs env host ++ args ++ lastArgs env host media

end RiscosBuilder.Build
