import RiscosBuilder.Build.NetworkCard

/-!
# The profile describes the machine that was built

What the profile says is compared with what stands on the command line.  The
two are in step for some environments only: where one of them asks `net_card`,
`disk_if` or `vga_type` the other may have a value of its own.
-/

namespace RiscosBuilder.Build

/-- With `none` there is no video device. -/
def videoDevices (names : List Text) : List Text :=
  names.filter fun name => decide (name ≠ text "none")

/-- The buses of the generators that are there. -/
def Rng.buses : Rng → List Text
  | .pci => [text "pci"]
  | .ccw => [text "ccw"]
  | .mmio => [text "device"]
  | .absent => []

/-- The profile says of each of these what the command line says. -/
structure Agrees (args : List Arg) (profile : Profile) : Prop where
  machine : (args.filterMap Arg.machineValue).map readMachine =
    [(profile.machineType, profile.machineOpts)]
  card : ∃ options, args.filterMap Arg.card = [options] ∧
    joined (options.filter fun option => !isBus option) = profile.netCard ∧
    options.filter isBus =
      (profile.netBus.map fun name => text "bus=" ++ name).toList
  disk : mainInterface args = [profile.diskIf]
  video : videoDevices (args.filterMap Arg.videoDevice) =
    videoDevices profile.vga.toList
  rng : args.filterMap Arg.rngBus = profile.rng.buses
  balloon : Arg.balloon ∈ args ↔ profile.balloon = true

/-- What stands before the first comma of `VM_DISK`. -/
def diskName (env : Env) : Text :=
  ((env .VM_DISK).splitOn ',').headD []

/-- The environments for which the two are in step. -/
structure InStep (env : Env) : Prop where
  bus : BusFree (env .VM_NIC)
  sparc64 : env.arch = .sparc64 →
    env .VM_NIC ∉ [[], text "virtio", text "virtio-net"] ∧
      (env.os = .netbsd → text "virtio-net" <+: env .VM_NIC →
        text "ctrl_vq" <:+: env .VM_NIC)
  mmio : env.arch = .riscv64 → env.os = .netbsd → env .VM_NIC ∈ mmioNics
  disk : env.arch ∈ [.aarch64, .riscv64, .loongarch64, .s390x, .powerpc] →
    diskName env ∈ [[], text "virtio"] ∧
      (env .VM_DISK = [] → env.os ∉ [.dragonflybsd, .ghostbsd, .tribblix])
  sd : env.arch = .armv7 → diskName env = text "sd"
  video : env.arch = .armv7 → env .VM_VGA = text "none"
  balloon : env.arch = .other → env.os = .reactos
  reactos : env.arch = .riscv64 → env.os ≠ .reactos

theorem agrees_own (args : List Arg) (profile : Profile) :
    Agrees (args.filter Arg.isOwn) profile ↔ Agrees args profile := by
  have machine := reads_own Arg.machineValue (fun _ => rfl) (fun _ _ => rfl) args
  have card := reads_own Arg.card (fun _ => rfl) (fun _ _ => rfl) args
  have interface := reads_own Arg.driveInterface (fun _ => rfl) (fun _ _ => rfl) args
  have bus := reads_own Arg.diskBus (fun _ => rfl) (fun _ _ => rfl) args
  have video := reads_own Arg.videoDevice (fun _ => rfl) (fun _ _ => rfl) args
  have rng := reads_own Arg.rngBus (fun _ => rfl) (fun _ _ => rfl) args
  have balloon : Arg.balloon ∈ args.filter Arg.isOwn ↔ Arg.balloon ∈ args := by
    simp [List.mem_filter, Arg.isOwn]
  constructor
  · rintro ⟨h1, h2, h3, h4, h5, h6⟩
    rw [mainInterface, bus, interface] at h3
    exact ⟨machine ▸ h1, card ▸ h2, h3, video ▸ h4, rng ▸ h5, balloon.symm.trans h6⟩
  · rintro ⟨h1, h2, h3, h4, h5, h6⟩
    refine ⟨machine ▸ h1, card ▸ h2, ?_, video ▸ h4, rng ▸ h5, balloon.trans h6⟩
    rwa [mainInterface, bus, interface]

theorem machine_agrees (env : Env) (host : Host) (plain : env .VM_MICROVM = []) :
    ((ownArgs env host).filterMap Arg.machineValue).map readMachine =
      [profileMachine env] := by
  rw [filterMap_ownArgs Arg.machineValue (fun _ => rfl)]
  have hpc := readMachine_pc env (qemuAccel env host)
  unfold essence profileMachine
  cases harch : env.arch with
  | aarch64 => exact congrArg (fun read => [read]) (readMachine_aarch64 ..)
  | riscv64 =>
      rw [riscv64Own_machine]
      exact congrArg (fun read => [read]) readMachine_riscv64
  | loongarch64 => exact congrArg (fun read => [read]) (readMachine_loongarch64 _)
  | s390x | armv7 => rfl
  | sparc64 => exact congrArg (fun read => [read]) (readMachine_sparc64 env)
  | powerpc => exact congrArg (fun read => [read]) (readMachine_powerpc _)
  | x86_64 | i386 | other =>
      rw [harch] at hpc
      simp only [pcOwn_machine, List.map_cons, List.map_nil, hpc, plain, ne_eq]
      rfl

theorem rng_agrees (env : Env) (host : Host) (plain : env .VM_MICROVM = []) :
    (ownArgs env host).filterMap Arg.rngBus = (profileRng env).buses := by
  rw [ownArgs, List.filterMap_append, essence_rng]
  unfold commonRng profileRng
  by_cases hs390x : env.arch = .s390x
  · rw [if_neg (by tauto), if_pos hs390x, if_pos hs390x]
    rfl
  · by_cases hrng : env.os = .solaris ∨ env.os = .reactos ∨ env.arch = .sparc64 ∨
        env.arch = .armv7
    · rw [if_neg (by tauto), if_neg hs390x, if_neg hs390x, if_neg (not_not.2 plain),
        if_pos hrng]
      rfl
    · rw [if_pos (by tauto), if_neg hs390x, if_neg hs390x, if_neg (not_not.2 plain),
        if_neg hrng]
      rfl

theorem vgaType_eq_none (env : Env) :
    env.vgaType = text "none" ↔ env .VM_VGA = text "none" := by
  unfold Env.vgaType
  by_cases hvga : env .VM_VGA = []
  · rw [if_neg (not_not.2 hvga), hvga]
    split
    · decide
    · split
      · decide
      · split <;> decide
  · rw [if_pos hvga]

theorem video_agrees (env : Env) (plain : env .VM_MICROVM = []) :
    videoDevices (emittedVideo env) = videoDevices (profileVga env).toList ↔
      (env.arch = .armv7 → env .VM_VGA = text "none") := by
  unfold emittedVideo profileVga
  cases harch : env.arch with
  | aarch64 =>
      simp only [aarch64Video]
      split <;> simp
  | armv7 =>
      rw [if_neg (not_not.2 plain), ← vgaType_eq_none]
      simp [videoDevices, List.filter_cons]
  | x86_64 | i386 | other => simp [plain]
  | _ => simp

theorem diskIf_eq_virtio (env : Env) :
    env.diskIf = text "virtio" ↔ diskName env ∈ [[], text "virtio"] ∧
      (env .VM_DISK = [] → env.os ∉ [.dragonflybsd, .ghostbsd, .tribblix]) := by
  have hide : text "ide" ≠ text "virtio" := by decide
  have hsata : text "sata" ≠ text "virtio" := by decide
  unfold Env.diskIf diskName
  by_cases hdisk : env .VM_DISK = []
  · rw [if_neg (not_not.2 hdisk), hdisk]
    cases env.os <;> simp [hide, hsata]
  · rw [if_pos hdisk, orElse]
    split <;> simp_all

theorem diskIf_eq_sd (env : Env) :
    env.diskIf = text "sd" ↔ diskName env = text "sd" := by
  unfold Env.diskIf diskName
  by_cases hdisk : env .VM_DISK = []
  · rw [if_neg (not_not.2 hdisk), hdisk]
    split
    · decide
    · split <;> decide
  · rw [if_pos hdisk, orElse]
    split
    · next hname =>
        rw [hname]
        decide
    · rfl

theorem disk_agrees (env : Env) :
    attachedInterface env = (if env.arch = .sparc64 then text "ide" else env.diskIf) ↔
      (env.arch ∈ [.aarch64, .riscv64, .loongarch64, .s390x, .powerpc] →
        diskName env ∈ [[], text "virtio"] ∧
          (env .VM_DISK = [] → env.os ∉ [.dragonflybsd, .ghostbsd, .tribblix])) ∧
      (env.arch = .armv7 → diskName env = text "sd") := by
  rw [← diskIf_eq_virtio, ← diskIf_eq_sd]
  unfold attachedInterface
  cases env.arch <;> simp [eq_comm]

theorem balloon_agrees (env : Env) (host : Host) (plain : env .VM_MICROVM = []) :
    (Arg.balloon ∈ ownArgs env host ↔ profileBalloon env = true) ↔
      (env.arch = .other → env.os = .reactos) ∧
      (env.arch = .riscv64 → env.os ≠ .reactos) := by
  rw [balloon_mem]
  unfold profileBalloon
  cases env.arch <;> by_cases hos : env.os = .reactos <;> simp [plain, hos]

theorem card_agrees (env : Env) (host : Host) :
    (∃ options, (ownArgs env host).filterMap Arg.card = [options] ∧
      joined (options.filter fun option => !isBus option) =
        (plainProfile env).netCard ∧
      options.filter isBus =
        ((plainProfile env).netBus.map fun name => text "bus=" ++ name).toList) ↔
      CardAgrees env := by
  have hbus : ((plainProfile env).netBus.map fun name => text "bus=" ++ name).toList =
      if env.arch = .sparc64 then [text "bus=pciB"] else [] := by
    unfold plainProfile
    split <;> rfl
  rw [ownArgs_card, hbus]
  constructor
  · rintro ⟨options, hoptions, hcard⟩
    rw [List.singleton_inj] at hoptions
    subst hoptions
    exact hcard
  · intro hcard
    exact ⟨wiredCard env, rfl, hcard⟩

theorem ownArgs_agrees (env : Env) (host : Host) (plain : env .VM_MICROVM = []) :
    Agrees (ownArgs env host) (plainProfile env) ↔ InStep env := by
  have hcard := (card_agrees env host).trans (cardAgrees_iff env plain)
  have hdisk := disk_agrees env
  have hvideo := video_agrees env plain
  have hballoon := balloon_agrees env host plain
  constructor
  · intro agrees
    have disk := agrees.disk
    have video := agrees.video
    rw [ownArgs_interface, List.singleton_inj] at disk
    rw [ownArgs_video] at video
    exact {
      bus := (hcard.1 agrees.card).1
      sparc64 := (hcard.1 agrees.card).2.1
      mmio := (hcard.1 agrees.card).2.2
      disk := (hdisk.1 disk).1
      sd := (hdisk.1 disk).2
      video := hvideo.1 video
      balloon := (hballoon.1 agrees.balloon).1
      reactos := (hballoon.1 agrees.balloon).2 }
  · intro inStep
    have disk := hdisk.2 ⟨inStep.disk, inStep.sd⟩
    have video := hvideo.2 inStep.video
    exact {
      machine := machine_agrees env host plain
      card := hcard.2 ⟨inStep.bus, inStep.sparc64, inStep.mmio⟩
      disk := by
        rw [ownArgs_interface, disk]
        rfl
      video := by
        rw [ownArgs_video, video]
        rfl
      rng := rng_agrees env host plain
      balloon := hballoon.2 ⟨inStep.balloon, inStep.reactos⟩ }

/-- The profile and the command line are in step for exactly these environments. -/
theorem profile_agrees (env : Env) (host : Host) (plain : env .VM_MICROVM = []) :
    ∃ args profile, buildQemuArgs env host none = some args ∧
      buildGuestProfile env = .ok profile ∧
      (Agrees args profile ↔ InStep env) := by
  obtain ⟨args, hargs, hown⟩ := buildQemuArgs_own env host
  refine ⟨args, plainProfile env, hargs, if_pos plain, ?_⟩
  rw [← agrees_own, hown]
  exact ownArgs_agrees env host plain

/-- The settings of RISC OS 5.30 that the two read. -/
def riscosSettings : Env
  | .VM_OS_NAME => text "riscos"
  | .VM_ARCH => text "armv7"
  | .VM_RELEASE => text "5.30"
  | .VM_NIC => text "usb-net-smsc95xx"
  | .VM_DISK => text "sd"
  | .VM_VGA => text "none"
  | .VM_BIOS => text "build/RISCOS.IMG"
  | .VM_MEMORY => text "1024"
  | .VM_CPU => text "4"
  | .VM_TRANSPORT => text "telnet"
  | .VM_QEMU_TAR => text "build/qemu-10.2.3-riscos-arm-noble.tar.zst"
  | .VM_QEMU_BIN => text "qemu10-riscos-arm/bin/qemu-system-arm"
  | _ => []

/-- A runner with x86_64 and KVM. -/
def runner : Host where
  arch := text "x86_64"
  kvm := true
  hvf := false
  nestedAvx512 := false
  sstcOff := false
  loongarchFirmware := none
  seedExists := false
  sshport := text "2222"
  monport := 7100
  serport := 7000
  vncport := 5900

theorem profile_agrees_riscos :
    ∃ args profile, buildQemuArgs riscosSettings runner none = some args ∧
      buildGuestProfile riscosSettings = .ok profile ∧ Agrees args profile := by
  obtain ⟨args, profile, hargs, hprofile, hagrees⟩ :=
    profile_agrees riscosSettings runner rfl
  refine ⟨args, profile, hargs, hprofile, hagrees.2 ?_⟩
  exact {
    bus := by decide
    sparc64 := fun h => absurd h (by decide)
    mmio := fun h => absurd h (by decide)
    disk := fun h => absurd h (by decide)
    sd := fun _ => by decide
    video := fun _ => rfl
    balloon := fun h => absurd h (by decide)
    reactos := fun h => absurd h (by decide) }

/-- The words that the board of RISC OS has on the command line. -/
example : (archArgs riscosSettings runner none).map (List.flatMap Arg.tokens) =
    some [text "-machine", text "raspi2b", text "-drive",
      text "file=build/riscos.qcow2,format=qcow2,if=sd", text "-device",
      text "usb-net-smsc95xx,netdev=net0"] := by
  decide

/-- NetBSD for sparc64, all else as it comes. -/
def sparc64Settings : Env
  | .VM_OS_NAME => text "netbsd"
  | .VM_ARCH => text "sparc64"
  | .VM_RELEASE => text "10.1"
  | _ => []

/-- The guest gets the `sunhme` of the board; its profile names an `e1000`. -/
theorem profile_agrees_sunhme :
    ∃ args profile, buildQemuArgs sparc64Settings runner none = some args ∧
      buildGuestProfile sparc64Settings = .ok profile ∧
      args.filterMap Arg.card = [[text "sunhme", text "bus=pciB"]] ∧
      profile.netCard = text "e1000" ∧ ¬ Agrees args profile := by
  have hnic : (plainProfile sparc64Settings).netCard = text "e1000" := by decide
  have hcard : wiredCard sparc64Settings = [text "sunhme", text "bus=pciB"] := by
    decide
  obtain ⟨args, hargs, hown⟩ := buildQemuArgs_own sparc64Settings runner
  have hwired : args.filterMap Arg.card = [wiredCard sparc64Settings] := by
    rw [← reads_own Arg.card (fun _ => rfl) (fun _ _ => rfl), hown, ownArgs_card]
  refine ⟨args, plainProfile sparc64Settings, hargs, if_pos rfl, ?_, hnic, ?_⟩
  · rw [hwired, hcard]
  · intro agrees
    obtain ⟨options, hoptions, hjoined, -⟩ := agrees.card
    rw [hwired, hcard, List.singleton_inj] at hoptions
    rw [← hoptions, hnic] at hjoined
    revert hjoined
    decide

end RiscosBuilder.Build
