import RiscosBuilder.Build.GuestProfile
import RiscosBuilder.Build.OwnArgs

/-!
# The network card, twice

The profile has the card of `net_card`.  The command line has it too, but not
on sparc64, where the board has a card of its own, and not on NetBSD/riscv64.
-/

namespace RiscosBuilder.Build

/-! ## Cards without a bus -/

/-- No option of the device names a bus. -/
def BusFree (device : Text) : Prop :=
  ∀ option ∈ device.splitOn ',', isBus option = false

instance (device : Text) : Decidable (BusFree device) :=
  inferInstanceAs (Decidable (∀ option ∈ device.splitOn ',', isBus option = false))

/-- No option is left out of a bus-free device, and none is added. -/
theorem joined_busFree (device card : Text) :
    joined ((device.splitOn ',').filter fun option => !isBus option) = card ∧
        (device.splitOn ',').filter isBus = [] ↔
      BusFree device ∧ device = card := by
  have hbus : (device.splitOn ',').filter isBus = [] ↔ BusFree device := by
    simp [BusFree, List.filter_eq_nil_iff]
  rw [hbus, and_comm, and_congr_right_iff]
  intro hfree
  have hall : (device.splitOn ',').filter (fun option => !isBus option) =
      device.splitOn ',' := by
    simpa [BusFree, List.filter_eq_self] using hfree
  rw [hall, joined, List.intercalate_splitOn]

theorem busFree_netbsdCtrlVqOff (env : Env) (device : Text) :
    BusFree (env.netbsdCtrlVqOff device) ↔ BusFree device := by
  unfold Env.netbsdCtrlVqOff
  split
  · have hsplit : (device ++ text ",ctrl_vq=off").splitOn ',' =
        device.splitOn ',' ++ [text "ctrl_vq=off"] :=
      List.splitOn_append_cons_self ..
    have hoption : isBus (text "ctrl_vq=off") = false := by decide
    simp [BusFree, hsplit, hoption, or_imp, forall_and]
  · rfl

/-- The cards that are chosen when no setting names one. -/
theorem netCard_unset (env : Env) (hnic : env .VM_NIC = []) :
    env.netCard = text "virtio-net-ccw" ∨ env.netCard = text "usb-net-smsc95xx" ∨
      ∃ card ∈ [text "e1000", text "virtio-net-pci"],
        env.netCard = env.netbsdCtrlVqOff card := by
  unfold Env.netCard
  rw [if_neg (not_not.2 hnic)]
  split
  · exact .inl rfl
  · split
    · exact .inr (.inl rfl)
    · refine .inr (.inr ⟨_, ?_, rfl⟩)
      split_ifs <;> decide

/-- The card that a setting names, `virtio` being the one for PCI or CCW. -/
theorem netCard_set (env : Env) (hnic : env .VM_NIC ≠ []) :
    env.netCard = env.netbsdCtrlVqOff
      (if env .VM_NIC ∈ [text "virtio", text "virtio-net"] then
        if env.arch = .s390x then text "virtio-net-ccw" else text "virtio-net-pci"
      else env .VM_NIC) := by
  unfold Env.netCard
  rw [if_pos hnic]
  by_cases hvirtio : env .VM_NIC = text "virtio" ∨ env .VM_NIC = text "virtio-net"
  · have hmem : env .VM_NIC ∈ [text "virtio", text "virtio-net"] := by
      simpa using hvirtio
    rw [if_pos hvirtio, if_pos hmem]
  · have hmem : env .VM_NIC ∉ [text "virtio", text "virtio-net"] := by
      simpa using hvirtio
    rw [if_neg hvirtio, if_neg hmem]

theorem busFree_netCard (env : Env) :
    BusFree env.netCard ↔ BusFree (env .VM_NIC) := by
  by_cases hnic : env .VM_NIC = []
  · have hempty : BusFree (env .VM_NIC) := by
      rw [hnic]
      decide
    rw [iff_true_right hempty]
    obtain hcard | hcard | ⟨card, hmem, hcard⟩ := netCard_unset env hnic
    · rw [hcard]
      decide
    · rw [hcard]
      decide
    · have hall : ∀ card ∈ [text "e1000", text "virtio-net-pci"], BusFree card := by
        decide
      rw [hcard, busFree_netbsdCtrlVqOff]
      exact hall card hmem
  · rw [netCard_set env hnic, busFree_netbsdCtrlVqOff]
    split
    · next hvirtio =>
        have hall : ∀ nic ∈ [text "virtio", text "virtio-net"], BusFree nic := by
          decide
        rw [iff_true_right (hall _ hvirtio)]
        split <;> decide
    · rfl

/-- The decoration keeps what it is put on. -/
theorem prefix_netbsdCtrlVqOff (env : Env) (device : Text) :
    device <+: env.netbsdCtrlVqOff device := by
  unfold Env.netbsdCtrlVqOff
  split
  · exact List.prefix_append ..
  · exact List.prefix_rfl

theorem netbsdCtrlVqOff_eq_self (env : Env) (device : Text) :
    env.netbsdCtrlVqOff device = device ↔
      (env.os = .netbsd → text "virtio-net" <+: device →
        text "ctrl_vq" <:+: device) := by
  unfold Env.netbsdCtrlVqOff
  split
  · next h =>
      have hne : device ++ text ",ctrl_vq=off" ≠ device := by
        simp [text]
      tauto
  · next h =>
      simp only [true_iff]
      tauto

/-- The decoration tells a virtio card and its decorated form from all others. -/
theorem netbsdCtrlVqOff_eq (env : Env) (hos : env.os = .netbsd)
    (card nic : Text)
    (hcard : card ∈ [text "virtio-net-pci", text "virtio-net-device"]) :
    env.netbsdCtrlVqOff nic = card ++ text ",ctrl_vq=off" ↔
      nic = card ∨ nic = card ++ text ",ctrl_vq=off" := by
  have hvirtio : ∀ card ∈ [text "virtio-net-pci", text "virtio-net-device"],
      text "virtio-net" <+: card ∧ ¬ text "ctrl_vq" <:+: card := by
    decide +kernel
  have hdecorated : text "ctrl_vq" <:+: card ++ text ",ctrl_vq=off" :=
    ⟨card ++ text ",", text "=off", by rw [List.append_assoc, List.append_assoc]; rfl⟩
  have hcases := hvirtio card hcard
  unfold Env.netbsdCtrlVqOff
  constructor
  · intro heq
    split at heq
    · exact .inl (List.append_cancel_right heq)
    · exact .inr heq
  · rintro (rfl | rfl)
    · rw [if_pos ⟨hos, hcases⟩]
    · rw [if_neg fun h => h.2.2 hdecorated]

/-! ## The card of the profile -/

/-- The part of the agreement that is about the card. -/
def CardAgrees (env : Env) : Prop :=
  joined ((wiredCard env).filter fun option => !isBus option) = profileNic env ∧
    (wiredCard env).filter isBus =
      if env.arch = .sparc64 then [text "bus=pciB"] else []

/-- A profile without MMIO has the card of `net_card`. -/
theorem profileNic_pci (env : Env) (plain : env .VM_MICROVM = [])
    (hmmio : ¬ (env.os = .netbsd ∧ env.arch = .riscv64)) :
    profileNic env = env.netCard := by
  unfold profileNic profileMmio
  simp [plain, hmmio]

theorem cardAgrees_pci (env : Env) (plain : env .VM_MICROVM = [])
    (hsparc64 : env.arch ≠ .sparc64)
    (hmmio : ¬ (env.os = .netbsd ∧ env.arch = .riscv64)) :
    CardAgrees env ↔ BusFree (env .VM_NIC) := by
  unfold CardAgrees wiredCard
  rw [if_neg hsparc64, if_neg (by tauto), if_neg hsparc64,
    profileNic_pci env plain hmmio, joined_busFree, busFree_netCard]
  simp

theorem sunhme_ne_netCard (env : Env) (hnic : env .VM_NIC = []) :
    text "sunhme" ≠ env.netCard := by
  intro hsunhme
  obtain hcard | hcard | ⟨card, hmem, hcard⟩ := netCard_unset env hnic
  · rw [hcard] at hsunhme
    revert hsunhme
    decide
  · rw [hcard] at hsunhme
    revert hsunhme
    decide
  · have hall : ∀ card ∈ [text "e1000", text "virtio-net-pci"],
        ¬ card <+: text "sunhme" := by
      decide
    refine hall card hmem ?_
    rw [hsunhme, hcard]
    exact prefix_netbsdCtrlVqOff env card

/-- On sparc64 `net_card` is asked for the profile only. -/
theorem orElse_eq_netCard (env : Env) (hsparc64 : env.arch = .sparc64) :
    orElse (env .VM_NIC) (text "sunhme") = env.netCard ↔
      env .VM_NIC ∉ [[], text "virtio", text "virtio-net"] ∧
        (env.os = .netbsd → text "virtio-net" <+: env .VM_NIC →
          text "ctrl_vq" <:+: env .VM_NIC) := by
  by_cases hnic : env .VM_NIC = []
  · rw [orElse, if_pos hnic]
    refine iff_of_false (sunhme_ne_netCard env hnic) fun h => ?_
    simp [hnic] at h
  · rw [netCard_set env hnic, orElse, if_neg hnic]
    split
    · next hvirtio =>
        rw [if_neg (by simp [hsparc64])]
        refine iff_of_false (fun heq => ?_)
          (fun h => h.1 (List.mem_cons_of_mem _ hvirtio))
        have hall : ∀ nic ∈ [text "virtio", text "virtio-net"],
            ¬ text "virtio-net-pci" <+: nic := by
          decide
        refine hall _ hvirtio ?_
        rw [heq]
        exact prefix_netbsdCtrlVqOff env _
    · next hother =>
        have hmem : env .VM_NIC ∉ [[], text "virtio", text "virtio-net"] := by
          rw [List.mem_cons]
          exact fun h => h.elim hnic hother
        rw [eq_comm, netbsdCtrlVqOff_eq_self, and_iff_right hmem]

theorem cardAgrees_sparc64 (env : Env) (plain : env .VM_MICROVM = [])
    (hsparc64 : env.arch = .sparc64) :
    CardAgrees env ↔ BusFree (env .VM_NIC) ∧
      env .VM_NIC ∉ [[], text "virtio", text "virtio-net"] ∧
        (env.os = .netbsd → text "virtio-net" <+: env .VM_NIC →
          text "ctrl_vq" <:+: env .VM_NIC) := by
  have hbus : isBus (text "bus=pciB") = true := by decide
  have hsunhme : BusFree (text "sunhme") := by decide
  have hfree : BusFree (orElse (env .VM_NIC) (text "sunhme")) ↔
      BusFree (env .VM_NIC) := by
    unfold orElse
    split
    · next hnic =>
        rw [hnic]
        decide
    · rfl
  unfold CardAgrees wiredCard
  rw [if_pos hsparc64, if_pos hsparc64,
    profileNic_pci env plain (by simp [hsparc64]), List.filter_append,
    List.filter_append, ← orElse_eq_netCard env hsparc64, ← hfree,
    ← joined_busFree]
  simp [hbus]

/-- The names for a virtio card under which NetBSD/riscv64 gets the MMIO one. -/
def mmioNics : List Text :=
  [[], text "virtio", text "virtio-net", text "virtio-net-pci",
    text "virtio-net-pci,ctrl_vq=off", text "virtio-net-device",
    text "virtio-net-device,ctrl_vq=off"]

/-- The cards of `net_card` under which NetBSD/riscv64 is published right. -/
def mmioCards : List Text :=
  [text "virtio-net-pci" ++ text ",ctrl_vq=off",
    text "virtio-net-device" ++ text ",ctrl_vq=off"]

theorem profileNic_mmio (env : Env) (plain : env .VM_MICROVM = [])
    (hos : env.os = .netbsd) (hriscv64 : env.arch = .riscv64) :
    text "virtio-net-device" ++ text ",ctrl_vq=off" = profileNic env ↔
      env.netCard ∈ mmioCards := by
  have hmmio : profileMmio env = true := by
    simp [profileMmio, hos, hriscv64]
  unfold profileNic
  rw [if_neg (not_not.2 plain)]
  constructor
  · intro heq
    split at heq
    · next hpci =>
        obtain ⟨rest, hrest⟩ := hpci.2
        rw [← hrest, List.drop_left] at heq
        rw [← hrest, ← List.append_cancel_left heq]
        exact List.mem_cons_self
    · rw [← heq]
      exact List.mem_cons_of_mem _ List.mem_cons_self
  · intro hmem
    generalize env.netCard = card at hmem ⊢
    rw [hmmio]
    revert card
    decide

theorem netCard_mmio (env : Env) (hos : env.os = .netbsd)
    (hriscv64 : env.arch = .riscv64) :
    env.netCard ∈ mmioCards ↔ env .VM_NIC ∈ mmioNics := by
  have hpci : env.netbsdCtrlVqOff (text "virtio-net-pci") ∈ mmioCards := by
    rw [(netbsdCtrlVqOff_eq env hos (text "virtio-net-pci") _
      List.mem_cons_self).2 (.inl rfl)]
    exact List.mem_cons_self
  by_cases hnic : env .VM_NIC = []
  · have hcard : env.netCard = env.netbsdCtrlVqOff (text "virtio-net-pci") := by
      simp [Env.netCard, hnic, hos, hriscv64]
    rw [hcard, hnic]
    exact iff_of_true hpci List.mem_cons_self
  · rw [netCard_set env hnic]
    split
    · next hvirtio =>
        have hall : ∀ nic ∈ [text "virtio", text "virtio-net"], nic ∈ mmioNics := by
          decide
        rw [if_neg (by simp [hriscv64])]
        exact iff_of_true hpci (hall _ hvirtio)
    · next hother =>
        have hpciOff : text "virtio-net-pci" ++ text ",ctrl_vq=off" =
            text "virtio-net-pci,ctrl_vq=off" := by
          decide
        have hdeviceOff : text "virtio-net-device" ++ text ",ctrl_vq=off" =
            text "virtio-net-device,ctrl_vq=off" := by
          decide
        rw [mmioCards, List.mem_cons, List.mem_singleton,
          netbsdCtrlVqOff_eq env hos _ _ (by simp),
          netbsdCtrlVqOff_eq env hos _ _ (by simp), hpciOff, hdeviceOff]
        simp only [List.mem_cons, List.not_mem_nil, or_false, not_or] at hother
        simp only [mmioNics, List.mem_cons, List.not_mem_nil, hnic, hother.1,
          hother.2, false_or, or_false, or_assoc]

theorem cardAgrees_mmio (env : Env) (plain : env .VM_MICROVM = [])
    (hos : env.os = .netbsd) (hriscv64 : env.arch = .riscv64) :
    CardAgrees env ↔ env .VM_NIC ∈ mmioNics := by
  have hsparc64 : env.arch ≠ .sparc64 := by simp [hriscv64]
  have hdevice := (netbsdCtrlVqOff_eq env hos (text "virtio-net-device")
    (text "virtio-net-device") (by simp)).2 (.inl rfl)
  have hfree : BusFree (text "virtio-net-device" ++ text ",ctrl_vq=off") := by
    decide
  unfold CardAgrees wiredCard
  rw [if_neg hsparc64, if_neg hsparc64, if_pos ⟨hriscv64, hos⟩, hdevice,
    joined_busFree, profileNic_mmio env plain hos hriscv64,
    netCard_mmio env hos hriscv64, and_iff_right hfree]

theorem cardAgrees_iff (env : Env) (plain : env .VM_MICROVM = []) :
    CardAgrees env ↔ BusFree (env .VM_NIC) ∧
      (env.arch = .sparc64 →
        env .VM_NIC ∉ [[], text "virtio", text "virtio-net"] ∧
          (env.os = .netbsd → text "virtio-net" <+: env .VM_NIC →
            text "ctrl_vq" <:+: env .VM_NIC)) ∧
      (env.arch = .riscv64 → env.os = .netbsd → env .VM_NIC ∈ mmioNics) := by
  have hall : ∀ nic ∈ mmioNics, BusFree nic := by decide
  by_cases hmmio : env.os = .netbsd ∧ env.arch = .riscv64
  · obtain ⟨hos, hriscv64⟩ := hmmio
    rw [cardAgrees_mmio env plain hos hriscv64]
    simp only [hos, hriscv64]
    grind
  · by_cases hsparc64 : env.arch = .sparc64
    · rw [cardAgrees_sparc64 env plain hsparc64]
      simp [hsparc64]
    · rw [cardAgrees_pci env plain hsparc64 hmmio]
      tauto

end RiscosBuilder.Build
