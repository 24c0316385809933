import RiscosBuilder.Vchiq.Queue

/-!
# The handover

What a handover accepts, and which stores it makes.
-/

namespace RiscosBuilder.Vchiq

open RiscosBuilder.Library

/-- The numbers that the guest hands over. -/
structure SlotZero where
  zeroSize : UInt32
  maxSlots : UInt32
  perSide : UInt32
  first : UInt32
  last : UInt32
  deriving DecidableEq, Repr

/-- The numbers in the slot zero area at `base`. -/
def slotZeroAt (s : MboxVchiqState) (base : UInt32) : SlotZero where
  zeroSize := vchiqLdl s (base + SZ_SLOT_ZERO_SIZE)
  maxSlots := vchiqLdl s (base + SZ_MAX_SLOTS)
  perSide := vchiqLdl s (base + SZ_MAX_SLOTS_PER_SIDE)
  first := vchiqLdl s (base + SZ_HEADER_SIZE + SS_SLOT_FIRST)
  last := vchiqLdl s (base + SZ_HEADER_SIZE + SS_SLOT_LAST)

/-- The size of each of the two shared states. -/
def SlotZero.shared (z : SlotZero) : UInt32 :=
  (z.zeroSize - SZ_HEADER_SIZE - SLOT_INFO_SIZE * z.maxSlots) / 2

/-- How many slots the range holds. -/
def SlotZero.slots (z : SlotZero) : Nat :=
  z.last.toNat - z.first.toNat + 1

/-- The state of a device that has accepted the area at `base`. -/
def taken (s : MboxVchiqState) (base : UInt32) : MboxVchiqState :=
  { s with
    slotZero := base
    slotSize := VCHIQ_SLOT_SIZE
    maxSlotsPerSide := (slotZeroAt s base).perSide
    master := base + SZ_HEADER_SIZE
    slave := base + SZ_HEADER_SIZE + (slotZeroAt s base).shared
    slotFirst := (slotZeroAt s base).first
    slotLast := (slotZeroAt s base).last }

/-- What the checks of a handover make sure of. -/
structure Plausible (z : SlotZero) : Prop where
  zeroSize : z.zeroSize.toNat =
    (32 + 4 * z.maxSlots.toNat) % 2 ^ 32 + 2 * z.shared.toNat
  perSide_le : z.perSide.toNat ≤ z.maxSlots.toNat
  queue_le : (72 + 4 * z.perSide.toNat) % 2 ^ 32 ≤ z.shared.toNat
  order : z.first.toNat ≤ z.last.toNat
  span : z.last.toNat - z.first.toNat < z.perSide.toNat

/-- The shared state size that the code computes. -/
theorem SlotZero.zeroSize_eq {z : SlotZero}
    (low : ¬ z.zeroSize < SZ_HEADER_SIZE + SLOT_INFO_SIZE * z.maxSlots)
    (even : (z.zeroSize - SZ_HEADER_SIZE - SLOT_INFO_SIZE * z.maxSlots) &&& 1 =
      0) :
    z.zeroSize.toNat =
      (32 + 4 * z.maxSlots.toNat) % 2 ^ 32 + 2 * z.shared.toNat := by
  have hsum : (SZ_HEADER_SIZE + SLOT_INFO_SIZE * z.maxSlots).toNat =
      (32 + 4 * z.maxSlots.toNat) % 2 ^ 32 := by
    simp only [SZ_HEADER_SIZE, SLOT_INFO_SIZE, UInt32.toNat_add,
      UInt32.toNat_mul]
    simp
  rw [UInt32.lt_iff_toNat_lt, hsum] at low
  have hdiff : (z.zeroSize - SZ_HEADER_SIZE -
      SLOT_INFO_SIZE * z.maxSlots).toNat =
        z.zeroSize.toNat - (32 + 4 * z.maxSlots.toNat) % 2 ^ 32 := by
    rw [UInt32.toNat_sub, UInt32.toNat_sub, UInt32.toNat_mul]
    simp only [SZ_HEADER_SIZE, SLOT_INFO_SIZE, UInt32.reduceToNat]
    have hsize := z.zeroSize.toNat_lt
    omega
  have heven := congrArg UInt32.toNat even
  rw [UInt32.toNat_and, hdiff] at heven
  have hhalf : z.shared.toNat =
      (z.zeroSize.toNat - (32 + 4 * z.maxSlots.toNat) % 2 ^ 32) / 2 := by
    rw [SlotZero.shared, UInt32.toNat_div, hdiff]
    rfl
  rw [show (1 : UInt32).toNat = 1 from rfl, show (0 : UInt32).toNat = 0 from rfl,
    Nat.and_one_is_mod] at heven
  omega

/-- A handover is refused without a store, or takes the area it finds. -/
theorem takeArea_cases (s : MboxVchiqState) (base : UInt32) :
    (∃ next, takeArea s base = (false, next) ∧ next.memory = s.memory ∧
        next.stores = s.stores) ∨
      (takeArea s base = (true, taken s base) ∧ s.active = false ∧
        Plausible (slotZeroAt s base)) := by
  unfold takeArea
  split
  · exact Or.inl ⟨s, rfl, rfl, rfl⟩
  · next idle =>
      split
      · exact Or.inl ⟨s, rfl, rfl, rfl⟩
      · dsimp only
        split
        · exact Or.inl ⟨s, rfl, rfl, rfl⟩
        · next sane =>
            simp only [not_or, not_not] at sane
            obtain ⟨hslot, -, hperSide, hzero⟩ := sane
            split
            · exact Or.inl ⟨s, rfl, rfl, rfl⟩
            · next even =>
                rw [not_not] at even
                split
                · exact Or.inl ⟨s, rfl, rfl, rfl⟩
                · next roomy =>
                    split
                    · exact Or.inl ⟨_, rfl, rfl, rfl⟩
                    · next range =>
                        rw [not_or] at range
                        refine Or.inr ⟨?_, by simpa using idle, ?_⟩
                        · rw [hslot]
                          rfl
                        · refine ⟨SlotZero.zeroSize_eq hzero even, ?_, ?_, ?_,
                            ?_⟩
                          · exact UInt32.le_iff_toNat_le.mp
                              (UInt32.not_lt.mp hperSide)
                          · have hqueue : (SS_SLOT_QUEUE +
                                4 * (slotZeroAt s base).perSide).toNat ≤
                                  (slotZeroAt s base).shared.toNat :=
                              UInt32.le_iff_toNat_le.mp
                                (UInt32.not_lt.mp roomy)
                            simpa [SS_SLOT_QUEUE, UInt32.toNat_add,
                              UInt32.toNat_mul] using hqueue
                          · exact UInt32.le_iff_toNat_le.mp
                              (UInt32.not_lt.mp range.1)
                          · have hspan := UInt32.lt_iff_toNat_lt.mp
                              (UInt32.not_le.mp range.2)
                            rwa [Word.toNat_sub_of_le
                              (UInt32.le_iff_toNat_le.mp
                                (UInt32.not_lt.mp range.1))] at hspan

/-! ## Filling the slot queue -/

/-- The store that the `k`-th turn of the filling loop makes. -/
def entry (s : MboxVchiqState) (k : Nat) : Store where
  site := .slotQueue
  addr := s.master + SS_SLOT_QUEUE + 4 * UInt32.ofNat k
  val := s.slotFirst + UInt32.ofNat k

/-- The state behind `count` turns of the loop. -/
def filled (s : MboxVchiqState) : Nat → MboxVchiqState
  | 0 => s
  | count + 1 =>
      vchiqStl (filled s count) .slotQueue (entry s count).addr
        (entry s count).val

theorem filled_eq (s : MboxVchiqState) (count : Nat) :
    filled s count =
      { s with
        memory := (filled s count).memory
        stores := s.stores ++ (List.range count).map (entry s) } := by
  induction count with
  | zero => simp [filled]
  | succ count ih =>
      rw [filled, ih]
      simp [vchiqStl, List.range_succ, entry]

theorem fillTurn_filled (s : MboxVchiqState) (k : Nat) :
    fillTurn (filled s k, UInt32.ofNat k) =
      if s.slotFirst + UInt32.ofNat k ≤ s.slotLast then
        some (filled s (k + 1), UInt32.ofNat (k + 1))
      else none := by
  have hfirst : (filled s k).slotFirst = s.slotFirst := by rw [filled_eq]
  have hlast : (filled s k).slotLast = s.slotLast := by rw [filled_eq]
  have hmaster : (filled s k).master = s.master := by rw [filled_eq]
  simp only [fillTurn, hfirst, hlast, hmaster, filled, entry,
    UInt32.ofNat_add]
  rfl

theorem turns_fillTurn (s : MboxVchiqState) {count k : Nat}
    (going : ∀ j, k ≤ j → j < k + count →
      s.slotFirst + UInt32.ofNat j ≤ s.slotLast) :
    Loop.turns fillTurn count (filled s k, UInt32.ofNat k) =
      (filled s (k + count), UInt32.ofNat (k + count)) := by
  induction count generalizing k with
  | zero => rfl
  | succ count ih =>
      rw [Loop.turns, fillTurn_filled,
        if_pos (going k (le_refl k) (by omega))]
      have hrest := @ih (k + 1) fun j hlow hhigh =>
        going j (by omega) (by omega)
      simp only [hrest]
      rw [Nat.add_assoc, Nat.add_comm 1]

/-- The test of the filling loop, for a slot range that ends below the last word. -/
theorem fill_test {s : MboxVchiqState}
    (order : s.slotFirst.toNat ≤ s.slotLast.toNat)
    (low : s.slotLast.toNat ≠ 2 ^ 32 - 1) {k : Nat}
    (small : k ≤ s.slotLast.toNat - s.slotFirst.toNat + 1) :
    s.slotFirst + UInt32.ofNat k ≤ s.slotLast ↔
      k ≤ s.slotLast.toNat - s.slotFirst.toNat := by
  have hlast := s.slotLast.toNat_lt
  rw [UInt32.le_iff_toNat_le, UInt32.toNat_add, UInt32.toNat_ofNat']
  omega

/-- The loop stops once every slot of the range has its entry. -/
theorem run_fillTurn {s : MboxVchiqState}
    (order : s.slotFirst.toNat ≤ s.slotLast.toNat)
    (low : s.slotLast.toNat ≠ 2 ^ 32 - 1) {k fuel : Nat}
    (small : k ≤ s.slotLast.toNat - s.slotFirst.toNat + 1)
    (enough : s.slotLast.toNat - s.slotFirst.toNat + 1 ≤ k + fuel) :
    Loop.run fillTurn fuel (filled s k, UInt32.ofNat k) =
      some (filled s (s.slotLast.toNat - s.slotFirst.toNat + 1),
        UInt32.ofNat (s.slotLast.toNat - s.slotFirst.toNat + 1)) := by
  induction fuel generalizing k with
  | zero =>
      have hend : k = s.slotLast.toNat - s.slotFirst.toNat + 1 := by omega
      rw [hend]
      apply Loop.run_of_done
      rw [fillTurn_filled, if_neg]
      rw [fill_test order low (le_refl _)]
      omega
  | succ fuel ih =>
      by_cases more : k ≤ s.slotLast.toNat - s.slotFirst.toNat
      · have hturn : fillTurn (filled s k, UInt32.ofNat k) =
            some (filled s (k + 1), UInt32.ofNat (k + 1)) := by
          rw [fillTurn_filled, if_pos ((fill_test order low small).mpr more)]
        rw [Loop.run_of_turn hturn]
        exact ih (by omega) (by omega)
      · have hend : k = s.slotLast.toNat - s.slotFirst.toNat + 1 := by omega
        rw [hend]
        apply Loop.run_of_done
        rw [fillTurn_filled, if_neg]
        rw [fill_test order low (le_refl _)]
        omega

/-! ## Where the stores lie -/

/-- The bytes of a store lie between two addresses, which do not wrap. -/
def Store.Within (store : Store) (low high : Nat) : Prop :=
  low ≤ store.addr.toNat ∧ store.addr.toNat + 4 ≤ high

/--
A store of a handover at `base` lies where it is meant to lie: a slot queue
entry in the master's half of the shared states, any other field in the shared
states, and a message in the data slots.
-/
def Placed (z : SlotZero) (base : Nat) (store : Store) : Prop :=
  match store.site with
  | .slotQueue =>
      store.Within (base + 32) (base + z.zeroSize.toNat) ∧
        store.Within (base + 32) (base + 32 + z.shared.toNat)
  | .field => store.Within (base + 32) (base + z.zeroSize.toNat)
  | .message =>
      store.Within (base + z.zeroSize.toNat)
        (base + 4096 * z.maxSlots.toNat)

/-- What has been stored since, and where. -/
def Made (s after : MboxVchiqState) (P : Store → Prop) : Prop :=
  ∃ made, after.stores = s.stores ++ made ∧ ∀ store ∈ made, P store

/-- An accepted handover comes to an end and makes only stores that are in place. -/
structure Confined (s : MboxVchiqState) (base : UInt32) : Prop where
  filling : ∀ count,
    Made s (Loop.turns fillTurn count (taken s base, 0)).1
      (Placed (slotZeroAt s base) base.toNat)
  whole : ∃ fuel last, handover fuel s base = some last ∧
    Made s last (Placed (slotZeroAt s base) base.toNat)

/-- The numbers for which it does. -/
structure Sound (z : SlotZero) (base : Nat) : Prop where
  last : z.last.toNat ≠ 2 ^ 32 - 1
  queue : 76 + 4 * (z.last.toNat - z.first.toNat) ≤ z.shared.toNat
  slave : base + 52 + z.shared.toNat < 2 ^ 32
  data : base + z.zeroSize.toNat ≤ (base + 4096 * z.first.toNat) % 2 ^ 32
  slot : (base + 4096 * z.first.toNat) % 2 ^ 32 + 8 ≤
    base + 4096 * z.maxSlots.toNat
  message : (base + 4096 * z.first.toNat) % 2 ^ 32 + 4 < 2 ^ 32

theorem entry_addr (s : MboxVchiqState) (base : UInt32) (k : Nat) :
    (entry (taken s base) k).addr.toNat = (base.toNat + 104 + 4 * k) % 2 ^ 32 := by
  simp only [entry, taken, SZ_HEADER_SIZE, SS_SLOT_QUEUE, UInt32.toNat_add,
    UInt32.toNat_mul, UInt32.toNat_ofNat', UInt32.reduceToNat]
  omega

/-- Entries in place do not wrap and stay in the master's half. -/
theorem entries_placed {s : MboxVchiqState} {base : UInt32} {count : Nat}
    (placed : ∀ k ≤ count, Placed (slotZeroAt s base) base.toNat
      (entry (taken s base) k)) :
    base.toNat + 104 + 4 * count < 2 ^ 32 ∧
      76 + 4 * count ≤ (slotZeroAt s base).shared.toNat := by
  have hbase := base.toNat_lt
  induction count with
  | zero =>
      obtain ⟨hlow, hhigh⟩ := (placed 0 (le_refl 0)).2
      rw [entry_addr] at hlow hhigh
      omega
  | succ count ih =>
      obtain ⟨hlow, hhigh⟩ := (placed (count + 1) (le_refl _)).2
      have hbefore := (ih fun k hk => placed k (by omega)).1
      rw [entry_addr] at hlow hhigh
      omega

theorem placed_entry {s : MboxVchiqState} {base : UInt32} {k : Nat}
    (sane : Plausible (slotZeroAt s base))
    (low : base.toNat + 104 + 4 * k < 2 ^ 32)
    (inside : 76 + 4 * k ≤ (slotZeroAt s base).shared.toNat) :
    Placed (slotZeroAt s base) base.toNat (entry (taken s base) k) := by
  have hsize := sane.zeroSize
  unfold Placed
  simp only [entry]
  unfold Store.Within
  have haddr := entry_addr s base k
  simp only [entry] at haddr
  simp only [haddr]
  omega

/-! ## The stores behind the loop -/

@[simp] theorem armed_txPos (s : MboxVchiqState) : (armed s).txPos = 0 := by
  simp [armed]

@[simp] theorem armed_slotSize (s : MboxVchiqState) :
    (armed s).slotSize = s.slotSize := by
  simp [armed]

theorem announce_eq {s : MboxVchiqState}
    (slotSize : s.slotSize = VCHIQ_SLOT_SIZE)
    (order : s.slotFirst.toNat ≤ s.slotLast.toNat) :
    announce s = ringArmDoorbell
      (queued (armed s) (makeMsg VCHIQ_MSG_CONNECT 0 0)) := by
  have hslots : ¬ OutOfSlots (armed s) := by
    unfold OutOfSlots
    rw [gt_iff_lt, UInt32.lt_iff_toNat_lt, UInt32.toNat_add, UInt32.toNat_div]
    have hfirst := s.slotFirst.toNat_lt
    simp only [armed, vchiqStl_slotFirst, vchiqStl_slotLast,
      UInt32.reduceToNat, Nat.zero_div]
    omega
  have haligned : (armed s).txPos.toNat % 8 = 0 := by
    rw [armed_txPos]
    rfl
  have hqueue := queueMessage_eq ((armed_slotSize s).trans slotSize) haligned
    (makeMsg VCHIQ_MSG_CONNECT 0 0)
  rw [if_neg hslots] at hqueue
  rw [announce, hqueue]

/-- The entries of the slot queue, as they stand once they are filled in. -/
theorem filled_ldl {s : MboxVchiqState} {base : UInt32} {count k : Nat}
    (low : base.toNat + 100 + 4 * count < 2 ^ 32) (inside : k < count) :
    (filled (taken s base) count).memory.ldl (base.toNat + 104 + 4 * k) =
      (slotZeroAt s base).first + UInt32.ofNat k := by
  induction count with
  | zero => exact absurd inside (Nat.not_lt_zero k)
  | succ count ih =>
      have haddr := entry_addr s base count
      rw [Nat.mod_eq_of_lt (by omega)] at haddr
      rw [filled]
      simp only [vchiqStl, haddr]
      by_cases here : k = count
      · subst here
        rw [Memory.ldl_stl_same]
        rfl
      · rw [Memory.ldl_stl_apart (by omega)]
        exact ih (by omega) (by omega)

/-- The first slot of the range is the one that the CONNECT goes to. -/
theorem nextHeader_armed {s : MboxVchiqState} {base : UInt32} {count : Nat}
    (low : base.toNat + 100 + 4 * (count + 1) < 2 ^ 32) :
    nextHeader (armed (filled (taken s base) (count + 1))) =
      base + (slotZeroAt s base).first * VCHIQ_SLOT_SIZE := by
  have hfilled := filled_eq (taken s base) (count + 1)
  have hmaster : (filled (taken s base) (count + 1)).master =
      base + SZ_HEADER_SIZE := by rw [hfilled]; rfl
  have hzero : (filled (taken s base) (count + 1)).slotZero = base := by
    rw [hfilled]; rfl
  have hsize : (filled (taken s base) (count + 1)).slotSize =
      VCHIQ_SLOT_SIZE := by rw [hfilled]; rfl
  have hread := @filled_ldl s base (count + 1) 0 low (Nat.succ_pos count)
  have hindex : ∀ mask : UInt32, ((0 : UInt32) / VCHIQ_SLOT_SIZE) &&& mask = 0 := by
    intro mask
    rw [show (0 : UInt32) / VCHIQ_SLOT_SIZE = 0 by decide, UInt32.zero_and]
  have hplace : (base + SZ_HEADER_SIZE + SS_SLOT_QUEUE + 4 * 0).toNat =
      base.toNat + 104 := by
    simp only [SZ_HEADER_SIZE, SS_SLOT_QUEUE, UInt32.toNat_add,
      UInt32.reduceToNat, UInt32.reduceMul]
    omega
  have hfield : ∀ offset : UInt32, offset.toNat ≤ 32 →
      (base + SZ_HEADER_SIZE + offset).toNat =
        base.toNat + 32 + offset.toNat := by
    intro offset hle
    simp only [SZ_HEADER_SIZE, UInt32.toNat_add, UInt32.reduceToNat]
    omega
  unfold nextHeader
  simp only [armed, vchiqStl, vchiqLdl, hmaster, hzero, hsize, hindex, hplace]
  rw [hfield SS_TRIGGER_ARMED (by decide), hfield SS_RECYCLE_ARMED (by decide),
    hfield SS_INITIALISED (by decide),
    Memory.ldl_stl_apart (by simp only [SS_INITIALISED, UInt32.reduceToNat]; omega),
    Memory.ldl_stl_apart (by simp only [SS_RECYCLE_ARMED, UInt32.reduceToNat]; omega),
    Memory.ldl_stl_apart (by simp only [SS_TRIGGER_ARMED, UInt32.reduceToNat]; omega)]
  rw [show base.toNat + 104 = base.toNat + 104 + 4 * 0 from rfl, hread]
  rw [show (0 : UInt32) % VCHIQ_SLOT_SIZE = 0 by decide]
  simp

/-- The stores made once the slot queue is filled. -/
def lateStores (s : MboxVchiqState) (header : UInt32) : List Store :=
  [⟨.field, s.master + SS_TRIGGER_ARMED, 1⟩,
    ⟨.field, s.master + SS_RECYCLE_ARMED, 1⟩,
    ⟨.field, s.master + SS_INITIALISED, 1⟩,
    ⟨.message, header, makeMsg VCHIQ_MSG_CONNECT 0 0⟩,
    ⟨.message, header + 4, 0⟩,
    ⟨.field, s.master + SS_TX_POS, 8⟩,
    ⟨.field, s.slave + SS_TRIGGER_FIRED, 1⟩]

theorem announce_stores {s : MboxVchiqState}
    (slotSize : s.slotSize = VCHIQ_SLOT_SIZE)
    (order : s.slotFirst.toNat ≤ s.slotLast.toNat) :
    (announce s).stores =
      s.stores ++ lateStores s (nextHeader (armed s)) := by
  rw [announce_eq slotSize order]
  simp [ringArmDoorbell, queued, lateStores, armed]

/-- What an accepted handover stores, when the filling loop stays in place. -/
theorem handover_stores {s : MboxVchiqState} {base : UInt32}
    (accepted : takeArea s base = (true, taken s base))
    (sane : Plausible (slotZeroAt s base))
    (last : (slotZeroAt s base).last.toNat ≠ 2 ^ 32 - 1)
    (low : base.toNat + 100 + 4 * (slotZeroAt s base).slots < 2 ^ 32)
    {fuel : Nat} (enough : (slotZeroAt s base).slots ≤ fuel) :
    handover fuel s base =
        some (announce (filled (taken s base) (slotZeroAt s base).slots)) ∧
      (announce (filled (taken s base) (slotZeroAt s base).slots)).stores =
        s.stores ++ ((List.range (slotZeroAt s base).slots).map
            (entry (taken s base)) ++
          lateStores (taken s base)
            (base + (slotZeroAt s base).first * VCHIQ_SLOT_SIZE)) := by
  have hrun := @run_fillTurn (taken s base) sane.order last 0 fuel
    (Nat.zero_le _) (by rw [Nat.zero_add]; exact enough)
  have hfilled := filled_eq (taken s base) (slotZeroAt s base).slots
  have hheader := @nextHeader_armed s base _ low
  constructor
  · rw [handover, accepted]
    dsimp only
    rw [show ((taken s base, 0) : MboxVchiqState × UInt32) =
      (filled (taken s base) 0, UInt32.ofNat 0) from rfl, hrun]
    rfl
  · rw [announce_stores (by rw [hfilled]; rfl)
      (by rw [hfilled]; exact sane.order), SlotZero.slots, hheader,
      ← SlotZero.slots, hfilled]
    rw [List.append_assoc]
    rfl

/-- A handover has one outcome, however many turns it may take. -/
theorem handover_unique {fuel other : Nat} {s first second : MboxVchiqState}
    {base : UInt32} (hfirst : handover fuel s base = some first)
    (hsecond : handover other s base = some second) : first = second := by
  unfold handover at hfirst hsecond
  split at hfirst
  · next next refused =>
      rw [refused] at hsecond
      simp only [Option.some.injEq] at hfirst hsecond
      exact hfirst.symm.trans hsecond
  · next next accepted =>
      rw [accepted] at hsecond
      obtain ⟨a, ha, rfl⟩ := Option.map_eq_some_iff.mp hfirst
      obtain ⟨b, hb, rfl⟩ := Option.map_eq_some_iff.mp hsecond
      rw [Loop.run_unique ha hb]

/-! ## Stores in place -/

theorem filled_made {s : MboxVchiqState} {base : UInt32} {count : Nat}
    {P : Store → Prop} :
    Made s (filled (taken s base) count) P ↔
      ∀ k < count, P (entry (taken s base) k) := by
  have hstores : (filled (taken s base) count).stores =
      s.stores ++ (List.range count).map (entry (taken s base)) := by
    rw [filled_eq]
    rfl
  unfold Made
  rw [hstores]
  constructor
  · rintro ⟨made, same, placed⟩ k hk
    rw [List.append_cancel_left_eq] at same
    apply placed
    rw [← same]
    exact List.mem_map_of_mem (List.mem_range.mpr hk)
  · intro placed
    refine ⟨_, rfl, fun store member => ?_⟩
    obtain ⟨k, hk, rfl⟩ := List.mem_map.mp member
    exact placed k (List.mem_range.mp hk)

/-- Where the filling loop stays in place, so does each entry it comes to. -/
theorem placed_of_filling {s : MboxVchiqState} {base : UInt32}
    (made : ∀ count, Made s (Loop.turns fillTurn count (taken s base, 0)).1
      (Placed (slotZeroAt s base) base.toNat)) {count : Nat}
    (going : ∀ j < count, (taken s base).slotFirst + UInt32.ofNat j ≤
      (taken s base).slotLast) :
    ∀ k < count, Placed (slotZeroAt s base) base.toNat (entry (taken s base) k) := by
  have hturns := @turns_fillTurn (taken s base) count 0
    fun j _ hj => going j (by omega)
  have hmade := made count
  rw [show ((taken s base, 0) : MboxVchiqState × UInt32) =
    (filled (taken s base) 0, UInt32.ofNat 0) from rfl, hturns,
    Nat.zero_add] at hmade
  exact filled_made.mp hmade

/-- The filling loop is always behind some entry of the queue. -/
theorem filling_reach {s : MboxVchiqState} {base : UInt32}
    (horder : (slotZeroAt s base).first.toNat ≤ (slotZeroAt s base).last.toNat)
    (hlast : (slotZeroAt s base).last.toNat ≠ 2 ^ 32 - 1) (count : Nat) :
    ∃ k ≤ (slotZeroAt s base).slots,
      Loop.turns fillTurn count (taken s base, 0) =
        (filled (taken s base) k, UInt32.ofNat k) := by
  refine Loop.turns_invariant (P := fun state =>
    ∃ k ≤ (slotZeroAt s base).slots,
      state = (filled (taken s base) k, UInt32.ofNat k)) ?_
    ⟨0, Nat.zero_le _, rfl⟩ count
  rintro _ next ⟨k, hk, rfl⟩ turn
  rw [fillTurn_filled] at turn
  split at turn
  · next going =>
      have hle := (@fill_test (taken s base) horder hlast k hk).mp going
      simp only [Option.some.injEq] at turn
      exact ⟨k + 1, Nat.succ_le_succ hle, turn.symm⟩
  · simp at turn

/-- The filling loop stays in place exactly when its last entry does. -/
theorem filling_placed_iff {s : MboxVchiqState} {base : UInt32}
    (sane : Plausible (slotZeroAt s base)) :
    (∀ count, Made s (Loop.turns fillTurn count (taken s base, 0)).1
        (Placed (slotZeroAt s base) base.toNat)) ↔
      (slotZeroAt s base).last.toNat ≠ 2 ^ 32 - 1 ∧
        72 + 4 * (slotZeroAt s base).slots ≤ (slotZeroAt s base).shared.toNat ∧
        base.toNat + 100 + 4 * (slotZeroAt s base).slots < 2 ^ 32 := by
  have horder := sane.order
  constructor
  · intro made
    have hlast : (slotZeroAt s base).last.toNat ≠ 2 ^ 32 - 1 := by
      intro top
      have hall := @placed_of_filling s base made (2 ^ 30 + 1) fun j _ => by
        rw [UInt32.le_iff_toNat_le]
        have hlt := ((taken s base).slotFirst + UInt32.ofNat j).toNat_lt
        simp only [taken] at hlt ⊢
        omega
      have hwrap := (@entries_placed s base (2 ^ 30)
        fun k hk => hall k (by omega)).1
      omega
    refine ⟨hlast, ?_⟩
    have hslots := @placed_of_filling s base made (slotZeroAt s base).slots
      fun j hj => (@fill_test (taken s base) horder hlast j
        (by simp only [SlotZero.slots, taken] at hj ⊢; omega)).mpr
          (by simp only [SlotZero.slots, taken] at hj ⊢; omega)
    obtain ⟨hlow, hqueue⟩ := @entries_placed s base
      ((slotZeroAt s base).slots - 1) fun k hk => hslots k (by
        simp only [SlotZero.slots] at hk ⊢
        omega)
    simp only [SlotZero.slots] at hlow hqueue ⊢
    omega
  · rintro ⟨hlast, hqueue, hlow⟩ count
    obtain ⟨k, hk, hstate⟩ := filling_reach horder hlast count
    rw [hstate]
    apply filled_made.mpr
    intro j hj
    exact placed_entry sane (by omega) (by omega)

/-- When the stores behind the loop are in place. -/
theorem lateStores_placed_iff {s : MboxVchiqState} {base : UInt32}
    (sane : Plausible (slotZeroAt s base))
    (queue : 76 ≤ (slotZeroAt s base).shared.toNat)
    (low : base.toNat + 104 < 2 ^ 32) :
    (∀ store ∈ lateStores (taken s base)
        (base + (slotZeroAt s base).first * VCHIQ_SLOT_SIZE),
        Placed (slotZeroAt s base) base.toNat store) ↔
      base.toNat + 52 + (slotZeroAt s base).shared.toNat < 2 ^ 32 ∧
        base.toNat + (slotZeroAt s base).zeroSize.toNat ≤
          (base.toNat + 4096 * (slotZeroAt s base).first.toNat) % 2 ^ 32 ∧
        (base.toNat + 4096 * (slotZeroAt s base).first.toNat) % 2 ^ 32 + 8 ≤
          base.toNat + 4096 * (slotZeroAt s base).maxSlots.toNat ∧
        (base.toNat + 4096 * (slotZeroAt s base).first.toNat) % 2 ^ 32 + 4 <
          2 ^ 32 := by
  have hsize := sane.zeroSize
  have hlimit := (slotZeroAt s base).zeroSize.toNat_lt
  have hbase := base.toNat_lt
  have hmaster : ∀ offset : UInt32, offset.toNat ≤ 32 →
      ((taken s base).master + offset).toNat =
        base.toNat + 32 + offset.toNat := by
    intro offset hle
    simp only [taken, SZ_HEADER_SIZE, UInt32.toNat_add, UInt32.reduceToNat]
    omega
  have hslave : ((taken s base).slave + SS_TRIGGER_FIRED).toNat =
      (base.toNat + 52 + (slotZeroAt s base).shared.toNat) % 2 ^ 32 := by
    simp only [taken, SZ_HEADER_SIZE, SS_TRIGGER_FIRED, UInt32.toNat_add,
      UInt32.reduceToNat]
    omega
  have hheader : (base + (slotZeroAt s base).first * VCHIQ_SLOT_SIZE).toNat =
      (base.toNat + 4096 * (slotZeroAt s base).first.toNat) % 2 ^ 32 := by
    simp only [VCHIQ_SLOT_SIZE, UInt32.toNat_add, UInt32.toNat_mul,
      UInt32.reduceToNat]
    omega
  simp only [lateStores, List.mem_cons, List.not_mem_nil, or_false,
    forall_eq_or_imp, forall_eq, Placed, Store.Within, hslave, hheader,
    hmaster SS_TRIGGER_ARMED (by decide), hmaster SS_RECYCLE_ARMED (by decide),
    hmaster SS_INITIALISED (by decide), hmaster SS_TX_POS (by decide)]
  simp only [UInt32.toNat_add _ 4, hheader, SS_TRIGGER_ARMED, SS_RECYCLE_ARMED,
    SS_INITIALISED, SS_TX_POS, UInt32.reduceToNat]
  omega

/--
A handover that is refused stores nothing.  One that is accepted comes to an
end with all of its stores in place exactly when the numbers it finds are sound.
-/
theorem handover_confined (s : MboxVchiqState) (base : UInt32) :
    ((takeArea s base).1 = false → ∀ fuel, ∃ after,
        handover fuel s base = some after ∧ after.memory = s.memory ∧
          after.stores = s.stores) ∧
      ((takeArea s base).1 = true →
        (Confined s base ↔ Sound (slotZeroAt s base) base.toNat)) := by
  rcases takeArea_cases s base with
    ⟨next, hrefused, hmemory, hstores⟩ | ⟨haccepted, -, sane⟩
  · refine ⟨fun _ fuel => ⟨next, by rw [handover, hrefused], hmemory, hstores⟩,
      fun accepted => ?_⟩
    simp [hrefused] at accepted
  · refine ⟨fun refused => by simp [haccepted] at refused, fun _ => ?_⟩
    have hfilling := filling_placed_iff sane
    constructor
    · rintro ⟨filling, fuel, after, hafter, made, hmade, placed⟩
      obtain ⟨hlast, hqueue, hlow⟩ := hfilling.mp filling
      obtain ⟨hrun, hmake⟩ := handover_stores haccepted sane hlast hlow
        (Nat.le_max_right fuel _)
      have hsame := handover_unique hafter hrun
      rw [hsame, hmake, List.append_cancel_left_eq] at hmade
      have hslots : 1 ≤ (slotZeroAt s base).slots := Nat.succ_pos _
      obtain ⟨hslave, hdata, hslot, hmessage⟩ :=
        (lateStores_placed_iff sane (by omega) (by omega)).mp
          fun store member => placed store
            (hmade ▸ List.mem_append_right _ member)
      exact ⟨hlast, by simp only [SlotZero.slots] at hqueue; omega, hslave,
        hdata, hslot, hmessage⟩
    · rintro ⟨hlast, hqueue, hslave, hdata, hslot, hmessage⟩
      have hlow : base.toNat + 100 + 4 * (slotZeroAt s base).slots < 2 ^ 32 := by
        simp only [SlotZero.slots]
        omega
      have hroom : 72 + 4 * (slotZeroAt s base).slots ≤
          (slotZeroAt s base).shared.toNat := by
        simp only [SlotZero.slots]
        omega
      have filling := hfilling.mpr ⟨hlast, hroom, hlow⟩
      obtain ⟨hrun, hmake⟩ := handover_stores haccepted sane hlast hlow
        (le_refl _)
      refine ⟨filling, _, _, hrun, _, hmake, fun store member => ?_⟩
      rcases List.mem_append.mp member with early | late
      · obtain ⟨k, hk, rfl⟩ := List.mem_map.mp early
        have hinside := List.mem_range.mp hk
        exact placed_entry sane (by omega) (by omega)
      · have hslots : 1 ≤ (slotZeroAt s base).slots := Nat.succ_pos _
        exact (lateStores_placed_iff sane (by omega) (by omega)).mpr
          ⟨hslave, hdata, hslot, hmessage⟩ store late

/-- A memory that holds the numbers of a slot zero area at `base`. -/
def areaMemory (base : Nat) (z : SlotZero) : Memory :=
  ((((((Memory.stl (fun _ => 0) base VCHIQ_MAGIC).stl (base + 8)
    z.zeroSize).stl (base + 12) VCHIQ_SLOT_SIZE).stl (base + 16)
    z.maxSlots).stl (base + 20) z.perSide).stl (base + 36) z.first).stl
    (base + 40) z.last

/-- A device that has been reset, in front of a memory. -/
def idle (memory : Memory) : MboxVchiqState :=
  reset ⟨false, 0, 0, 0, 0, 0, 0, 0, 0, 0, 0, false, memory, [], []⟩

/-- Two slots for slot zero, and the master's slots behind them. -/
theorem handover_confined_two_slots :
    Confined (idle (areaMemory 0x10000 ⟨8192, 8, 3, 2, 4⟩)) 0x10000 :=
  ((handover_confined (idle (areaMemory 0x10000 ⟨8192, 8, 3, 2, 4⟩))
    0x10000).2 (by decide +kernel)).mpr
      ⟨by decide +kernel, by decide +kernel, by decide +kernel,
        by decide +kernel, by decide +kernel, by decide +kernel⟩

/-- With slot 0 as the master's, the CONNECT is written over the magic. -/
theorem handover_confined_not_slot_zero :
    (takeArea (idle (areaMemory 0x10000 ⟨8192, 8, 3, 0, 2⟩)) 0x10000).1 =
        true ∧
      ¬ Confined (idle (areaMemory 0x10000 ⟨8192, 8, 3, 0, 2⟩)) 0x10000 := by
  refine ⟨by decide +kernel, ?_⟩
  rintro ⟨-, fuel, after, hafter, made, hmade, placed⟩
  have hstored : (handover 3 (idle (areaMemory 0x10000 ⟨8192, 8, 3, 0, 2⟩))
      0x10000).map (fun last => decide (⟨.message, 0x10000,
        makeMsg VCHIQ_MSG_CONNECT 0 0⟩ ∈ last.stores)) = some true := by
    decide +kernel
  obtain ⟨last, hlast, hmember⟩ := Option.map_eq_some_iff.mp hstored
  rw [← handover_unique hafter hlast, hmade] at hmember
  have hplaced := placed _ (of_decide_eq_true hmember)
  exact absurd hplaced.1 (by decide +kernel)

end RiscosBuilder.Vchiq
