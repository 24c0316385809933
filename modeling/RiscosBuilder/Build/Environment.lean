import Mathlib.Data.List.Infix

/-!
# The environment of a build

The settings that a conf exports, and the helpers of `build.py` that decide
which network card, disk bus and video device a guest gets.  A string of
Python 3 is a list of characters.
-/

namespace RiscosBuilder.Build

abbrev Text := List Char

/-- The text of a string literal. -/
def text (literal : String) : Text :=
  literal.toList

inductive Var where
  | VM_OS_NAME
  | VM_ARCH
  | VM_RELEASE
  | VM_NIC
  | VM_DISK
  | VM_VGA
  | VM_BIOS
  | VM_MICROVM
  | VM_MICROVM_APPEND
  | VM_CPU_MODEL
  | VM_MEMORY
  | VM_CPU
  | VM_TRANSPORT
  | VM_9P_PORT
  | VM_UBOOT
  | VM_USE_CONSOLE_BUILD
  | VM_SEED_ISO
  | VM_QEMU_NO_REBOOT
  | VM_QEMU_TAR
  | VM_QEMU_BIN
  deriving DecidableEq, Repr

/-- `env(name)`: empty for a variable that is not set. -/
abbrev Env := Var → Text

/-- `value or default`. -/
def orElse (value default : Text) : Text :=
  if value = [] then default else value

/-- The architectures that `build.py` tells apart; all others are PC-class. -/
inductive Arch where
  | x86_64
  | i386
  | aarch64
  | riscv64
  | loongarch64
  | s390x
  | sparc64
  | powerpc
  | armv7
  | other
  deriving DecidableEq, Repr

def Arch.ofText (name : Text) : Arch :=
  if name = text "x86_64" then .x86_64
  else if name = text "i386" then .i386
  else if name = text "aarch64" then .aarch64
  else if name = text "riscv64" then .riscv64
  else if name = text "loongarch64" then .loongarch64
  else if name = text "s390x" then .s390x
  else if name = text "sparc64" then .sparc64
  else if name ∈ [text "powerpc64", text "powerpc64le", text "ppc64",
    text "ppc64le"] then .powerpc
  else if name = text "armv7" then .armv7
  else .other

/-- The guest systems that `build.py` tells apart. -/
inductive Os where
  | netbsd
  | openbsd
  | freebsd
  | dragonflybsd
  | ghostbsd
  | haiku
  | hurd
  | reactos
  | riscos
  | solaris
  | tribblix
  | ubuntu
  | windows
  | other
  deriving DecidableEq, Repr

def Os.ofText (name : Text) : Os :=
  if name = text "netbsd" then .netbsd
  else if name = text "openbsd" then .openbsd
  else if name = text "freebsd" then .freebsd
  else if name = text "dragonflybsd" then .dragonflybsd
  else if name = text "ghostbsd" then .ghostbsd
  else if name = text "haiku" then .haiku
  else if name = text "hurd" then .hurd
  else if name = text "reactos" then .reactos
  else if name = text "riscos" then .riscos
  else if name = text "solaris" then .solaris
  else if name = text "tribblix" then .tribblix
  else if name = text "ubuntu" then .ubuntu
  else if name = text "windows" then .windows
  else .other

namespace Env

variable (env : Env)

/-- `env("VM_ARCH") or "x86_64"`. -/
def archName : Text :=
  orElse (env .VM_ARCH) (text "x86_64")

def arch : Arch :=
  Arch.ofText env.archName

def os : Os :=
  Os.ofText (env .VM_OS_NAME)

/-- `obsd_acpi_off`. -/
def obsdAcpiOff : Bool :=
  decide (env.os = .openbsd) && decide (env.arch = .aarch64)

/-- `netbsd9_acpi_off`. -/
def netbsd9AcpiOff : Bool :=
  decide (env.os = .netbsd) && decide (env.arch = .aarch64) &&
    decide (((env .VM_RELEASE).splitOn '.').headD [] = text "9")

/-- `netbsd_ctrl_vq_off`. -/
def netbsdCtrlVqOff (dev : Text) : Text :=
  if env.os = .netbsd ∧ text "virtio-net" <+: dev ∧ ¬ text "ctrl_vq" <:+: dev
  then dev ++ text ",ctrl_vq=off"
  else dev

def OPENBSD_E1000_RELEASES : List Text :=
  [text "7.3", text "7.4", text "7.5", text "7.6"]

/-- `net_card`. -/
def netCard : Text :=
  if env .VM_NIC ≠ [] then
    if env .VM_NIC = text "virtio" ∨ env .VM_NIC = text "virtio-net" then
      env.netbsdCtrlVqOff
        (if env.arch = .s390x then text "virtio-net-ccw"
          else text "virtio-net-pci")
    else env.netbsdCtrlVqOff (env .VM_NIC)
  else if env.arch = .s390x then text "virtio-net-ccw"
  else if env.arch = .armv7 then text "usb-net-smsc95xx"
  else
    env.netbsdCtrlVqOff
      (if env.os = .openbsd ∧ env .VM_RELEASE ≠ [] then
        if ((env .VM_RELEASE).splitOn '-').headD [] ∈ OPENBSD_E1000_RELEASES
        then text "e1000" else text "virtio-net-pci"
      else if env.os = .dragonflybsd then
        if env .VM_RELEASE ≠ text "6.4.0" then text "virtio-net-pci"
        else if env.arch = .aarch64 then text "virtio-net-pci"
        else text "e1000"
      else if env.arch = .riscv64 ∨ env.arch = .loongarch64 then
        text "virtio-net-pci"
      else if env.os = .netbsd ∧ env.arch = .aarch64 then text "virtio-net-pci"
      else if env.os = .freebsd then text "virtio-net-pci"
      else if env.os = .ubuntu then text "virtio-net-pci"
      else if env.arch = .aarch64 then text "virtio-net-pci"
      else text "e1000")

def OPENBSD_DESKTOP_SUFFIXES : List Text :=
  [text "-xfce", text "-gnome", text "-kde", text "-kde6", text "-mate",
    text "-lxqt", text "-lumina", text "-enlightenment", text "-cinnamon"]

/-- `vga_type`. -/
def vgaType : Text :=
  if env .VM_VGA ≠ [] then env .VM_VGA
  else if env.os = .netbsd ∧ env.arch ≠ .aarch64 then text "std"
  else if env.os = .haiku then text "std"
  else if env.os = .openbsd ∧ env.arch ≠ .aarch64 ∧
      ∃ ending ∈ OPENBSD_DESKTOP_SUFFIXES, ending <:+ env .VM_RELEASE then
    text "cirrus"
  else text "virtio"

/-- `disk_if`. -/
def diskIf : Text :=
  if env .VM_DISK ≠ [] then
    orElse (((env .VM_DISK).splitOn ',').headD []) (text "virtio")
  else if env.os = .dragonflybsd ∨ env.os = .ghostbsd then text "ide"
  else if env.os = .tribblix then text "sata"
  else text "virtio"

/-- `rtc_base`. -/
def rtcBase : Text :=
  if env.os = .windows ∨ env.os = .reactos ∨ env.os = .haiku then
    text "localtime"
  else text "utc"

end Env

end RiscosBuilder.Build
