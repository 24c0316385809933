import RiscosBuilder.FileCore.ContentSearch
import RiscosBuilder.FileCore.PatchedStore

/-!
# The scaffold of a build

The bootstrap stands in templates, which the tool finds by their addresses, and in
the guest's own copy, which it has to find by its first bytes.
`host_finalizeImage.sh` puts the stock script back into both, the templates first.
-/

namespace RiscosBuilder.FileCore

open RiscosBuilder.Library RiscosBuilder.Library.ByteImage

/-- One of the patches with which the stock script is put back. -/
def restoring (stock bootstrap : List UInt8) (object : Path × Entry) : Command :=
  .patch object.1 stock bootstrap

/-- The files that begin with the bootstrap; the guest's copy lies at `spot`. -/
structure Scaffold where
  templates : List (Path × Entry)
  live : Path × Entry
  spot : Nat

namespace Scaffold

def liveSlot (scaffold : Scaffold) : Slot :=
  ⟨scaffold.spot, scaffold.live.2.length⟩

/-- The slots of all files of the scaffold. -/
def slots (scaffold : Scaffold) (base : Nat → Nat) : List Slot :=
  scaffold.liveSlot :: scaffold.templates.map fun object => fileSlot base object.2

/--
The scaffold as the guest has left it: the bootstrap begins the templates and the
guest's copy, and nothing else that begins at a sector.
-/
structure Stands (scaffold : Scaffold) (tree : Tree) (base : Nat → Nat)
    (layout : Directory → Layout) (bootstrap m : List UInt8) : Prop where
  stored : Stored m tree base layout
  placed : ∀ object ∈ scaffold.templates, object ∈ tree.placed base
  nodup : scaffold.templates.Nodup
  entry : scaffold.live ∈ tree.entries (place base)
  file : scaffold.live.2.isdir = false
  unknown : tree.calibrated (scaffold.live.2.ind / 256) = false
  inside : scaffold.liveSlot.Inside m
  aligned : scaffold.spot % SECTOR = 0
  apart : ∀ object ∈ tree.placed base,
    scaffold.liveSlot.Apart (fileSlot base object.2)
  clear : ∀ d ∈ tree.directories,
    scaffold.liveSlot.Apart (blockSlot base layout d)
  found : ∀ place, IsCopy m bootstrap place ↔
    ∃ slot ∈ scaffold.slots base, slot.start = place

/-- The stock script fits into the slots, and it is not the bootstrap. -/
structure Takes (scaffold : Scaffold) (base : Nat → Nat)
    (stock bootstrap : List UInt8) : Prop where
  line : LF ∉ bootstrap
  speaks : ∃ byte ∈ bootstrap, byte ≠ 0x7c ∧ byte ≠ 0x20
  short : bootstrap.length ≤ SECTOR
  other : ¬ bootstrap <:+: stock
  clean : ¬ SBPr <:+: stock
  room : ∀ slot ∈ scaffold.slots base, bootstrap.length ≤ slot.size
  fits : ∀ slot ∈ scaffold.slots base, (normalise stock).length ≤ slot.size

/-- The stock script is back in all slots, and nothing else has changed. -/
structure Restored (scaffold : Scaffold) (tree : Tree) (base : Nat → Nat)
    (layout : Directory → Layout) (stock bootstrap m left : List UInt8) :
    Prop where
  stored : Stored left tree base layout
  gone : ∀ place, ¬ IsCopy left bootstrap place
  holds : ∀ slot ∈ scaffold.slots base,
    slot.content left = scriptBytes stock slot.size
  length : left.length = m.length
  frame : ∀ i, (∀ slot ∈ scaffold.slots base, i < slot.start ∨ slot.stop ≤ i) →
    left[i]? = m[i]?

end Scaffold

/-! ## What filling a slot does to the copies -/

theorem isCopy_iff_holds {m expected : List UInt8} {place : Nat} :
    IsCopy m expected place ↔ place % SECTOR = 0 ∧ Holds m place expected :=
  and_congr_right fun _ => Slot.holds_iff_slice.symm

/--
A filled slot has lost its copy, and no other is made or lost: what begins at a
sector in front of the slot ends there.
-/
theorem isCopy_fill_iff {m data pattern : List UInt8} {slot : Slot}
    (inside : slot.Inside m) (fits : data.length = slot.size)
    (aligned : slot.start % SECTOR = 0) (line : LF ∉ pattern)
    (short : pattern.length ≤ SECTOR) (clean : ¬ pattern <:+: data)
    (ends : data.getLast? = some LF)
    (others : ∀ place, IsCopy m pattern place → place ≠ slot.start →
      place + pattern.length ≤ slot.start ∨ slot.stop ≤ place) {place : Nat} :
    IsCopy (slot.fill m data) pattern place ↔
      IsCopy m pattern place ∧ place ≠ slot.start := by
  have hpositive : 0 < slot.size := by
    rw [← fits]
    exact List.length_pos_of_ne_nil fun empty => by simp [empty] at ends
  constructor
  · rintro copy
    obtain ⟨sector, holds⟩ := isCopy_iff_holds.mp copy
    have happart : place + pattern.length ≤ slot.start ∨ slot.stop ≤ place := by
      by_cases before : place < slot.start
      · simp only [SECTOR] at aligned sector short
        exact Or.inl (by omega)
      · exact Or.inr (pattern_behind inside fits line clean ends (by omega) holds)
    have hbefore := (Slot.holds_fill_iff inside fits happart).mp holds
    refine ⟨isCopy_iff_holds.mpr ⟨sector, hbefore⟩, ?_⟩
    rintro rfl
    rcases happart with front | behind
    · have hempty : pattern = [] := List.length_eq_zero_iff.mp (by omega)
      exact clean (hempty ▸ List.nil_infix)
    · unfold Slot.stop at behind
      omega
  · rintro ⟨copy, different⟩
    obtain ⟨sector, holds⟩ := isCopy_iff_holds.mp copy
    exact isCopy_iff_holds.mpr ⟨sector, (Slot.holds_fill_iff inside fits
      (others place copy different)).mpr holds⟩

namespace Scaffold

variable {scaffold : Scaffold} {tree : Tree} {base : Nat → Nat}
  {layout : Directory → Layout} {stock bootstrap m : List UInt8}

/-! ## The templates -/

/-- While templates are being restored: the copies that are left, and the rest. -/
structure Standing (scaffold : Scaffold) (tree : Tree) (base : Nat → Nat)
    (layout : Directory → Layout) (stock bootstrap m : List UInt8)
    (left : Path × Entry → Prop) (now : List UInt8) : Prop where
  stored : Stored now tree base layout
  length : now.length = m.length
  found : ∀ place, IsCopy now bootstrap place ↔ place = scaffold.spot ∨
    ∃ object ∈ scaffold.templates, left object ∧
      (fileSlot base object.2).start = place
  done : ∀ object ∈ scaffold.templates, ¬ left object →
    (fileSlot base object.2).content now = scriptBytes stock object.2.length
  frame : ∀ i, (∀ object ∈ scaffold.templates,
    i < (fileSlot base object.2).start ∨ (fileSlot base object.2).stop ≤ i) →
      now[i]? = m[i]?

theorem Stands.standing (stands : scaffold.Stands tree base layout bootstrap m) :
    scaffold.Standing tree base layout stock bootstrap m (fun _ => True) m where
  stored := stands.stored
  length := rfl
  found place := by
    rw [stands.found, slots, List.exists_mem_cons_iff]
    simp only [List.mem_map, exists_exists_and_eq_and, true_and]
    exact or_congr_left eq_comm
  done _ _ left := absurd trivial left
  frame _ _ := rfl

theorem mem_slots_of_template {object : Path × Entry}
    (member : object ∈ scaffold.templates) :
    fileSlot base object.2 ∈ scaffold.slots base :=
  List.mem_cons_of_mem _
    (@List.mem_map_of_mem _ _ _ _ (fun object => fileSlot base object.2) member)

theorem Takes.size_pos (takes : scaffold.Takes base stock bootstrap) {slot : Slot}
    (member : slot ∈ scaffold.slots base) : 0 < slot.size := by
  refine Nat.lt_of_lt_of_le ?_ (takes.fits slot member)
  exact List.length_pos_of_ne_nil fun empty => by
    have hends := getLast?_normalise stock
    simp [empty] at hends

/-- The copy of a file of the scaffold is clear of the slots of the others. -/
theorem Takes.copy_clear (takes : scaffold.Takes base stock bootstrap)
    {slot other : Slot} (member : slot ∈ scaffold.slots base)
    (hother : other ∈ scaffold.slots base) (apart : slot.Apart other) :
    slot.start + bootstrap.length ≤ other.start ∨ other.stop ≤ slot.start := by
  have hroom := takes.room slot member
  have hsize := takes.size_pos member
  have hsize' := takes.size_pos hother
  unfold Slot.Apart Slot.stop at *
  omega

theorem Takes.starts_ne (takes : scaffold.Takes base stock bootstrap)
    {slot other : Slot} (member : slot ∈ scaffold.slots base)
    (hother : other ∈ scaffold.slots base) (apart : slot.Apart other) :
    slot.start ≠ other.start := by
  have hsize := takes.size_pos member
  have hsize' := takes.size_pos hother
  unfold Slot.Apart Slot.stop at apart
  omega

/-- A file that holds a copy begins with the bootstrap. -/
theorem begins (takes : scaffold.Takes base stock bootstrap) {now : List UInt8}
    {slot : Slot} (member : slot ∈ scaffold.slots base)
    (copy : IsCopy now bootstrap slot.start) :
    bootstrap <+: slice now slot.start (slot.start + slot.size) := by
  obtain ⟨-, holds⟩ := isCopy_iff_holds.mp copy
  rw [slice, Nat.add_sub_cancel_left]
  exact List.prefix_take_iff.mpr ⟨holds, takes.room slot member⟩

/-- The stock script has neither a bootstrap nor a magic, wherever it is put. -/
theorem Takes.script_clean (takes : scaffold.Takes base stock bootstrap) (size : Nat) :
    ¬ bootstrap <:+: scriptBytes stock size :=
  pattern_not_in_script takes.line takes.speaks takes.other size

/-- A patch of a file of the scaffold that the tool finds, and that holds a copy. -/
theorem patch_found (takes : scaffold.Takes base stock bootstrap) {now : List UInt8}
    {v : Volume} (loaded : Volume.load now = .ok v) {object : Path × Entry}
    {slot : Slot} (member : slot ∈ scaffold.slots base)
    (located : v.locate object.1 bootstrap = .ok ((slot.start : Int), slot.size))
    (copy : IsCopy now bootstrap slot.start) :
    runCommand now (restoring stock bootstrap object) =
      (.ok (.patched object.1 slot.start slot.size
          (slot.size - (normalise stock).length)),
        slot.fill now (scriptBytes stock slot.size)) := by
  have hlong := Nat.not_lt_of_le (takes.fits slot member)
  simp only [restoring, runCommand,
    Represents.patchCommand_eq loaded stock located, begins takes member copy,
    not_true_eq_false, if_false, if_neg hlong]

theorem Standing.inside (stands : scaffold.Stands tree base layout bootstrap m)
    {left : Path × Entry → Prop} {now : List UInt8}
    (standing : scaffold.Standing tree base layout stock bootstrap m left now) :
    scaffold.liveSlot.Inside now := by
  have hinside := stands.inside
  rwa [Slot.Inside, ← standing.length] at hinside

/-- The templates' slots are apart, as they are slots of the tree. -/
theorem templates_apart (stands : scaffold.Stands tree base layout bootstrap m)
    {first second : Path × Entry} (hfirst : first ∈ scaffold.templates)
    (hsecond : second ∈ scaffold.templates) (different : first ≠ second) :
    (fileSlot base first.2).Apart (fileSlot base second.2) :=
  stands.stored.slots_apart (stands.placed _ hfirst) (stands.placed _ hsecond)
    different

/-- A template that is filled with the stock script is left no longer. -/
theorem Standing.fill (stands : scaffold.Stands tree base layout bootstrap m)
    (takes : scaffold.Takes base stock bootstrap) {left : Path × Entry → Prop}
    {now : List UInt8}
    (standing : scaffold.Standing tree base layout stock bootstrap m left now)
    {object : Path × Entry} (member : object ∈ scaffold.templates) :
    scaffold.Standing tree base layout stock bootstrap m
      (fun other => left other ∧ other ≠ object)
      ((fileSlot base object.2).fill now (scriptBytes stock object.2.length)) := by
  have hslot := @mem_slots_of_template scaffold base _ member
  have hplaced := stands.placed _ member
  have hinside := standing.stored.inside _ hplaced
  have hfits : (scriptBytes stock object.2.length).length =
      (fileSlot base object.2).size := scriptBytes_length (takes.fits _ hslot)
  have happart : ∀ other ∈ scaffold.templates, other ≠ object →
      (fileSlot base other.2).Apart (fileSlot base object.2) :=
    fun other hother different => templates_apart stands hother member different
  have hlive := stands.apart _ hplaced
  have hothers : ∀ place, IsCopy now bootstrap place →
      place ≠ (fileSlot base object.2).start →
      place + bootstrap.length ≤ (fileSlot base object.2).start ∨
        (fileSlot base object.2).stop ≤ place := by
    intro place copy different
    rcases (standing.found place).mp copy with rfl | ⟨other, hother, -, rfl⟩
    · exact takes.copy_clear List.mem_cons_self hslot hlive
    · exact takes.copy_clear (mem_slots_of_template hother) hslot
        (happart other hother fun same => different (same ▸ rfl))
  refine ⟨standing.stored.fill hplaced (takes.fits _ hslot) takes.clean,
    (Slot.fill_length hinside hfits).trans standing.length, ?_, ?_, ?_⟩
  · intro place
    rw [isCopy_fill_iff hinside hfits (place_mod stands.stored.aligned _) takes.line
      takes.short (takes.script_clean _) (getLast?_scriptBytes _ _) hothers,
      standing.found]
    constructor
    · rintro ⟨rfl | ⟨other, hother, still, rfl⟩, different⟩
      · exact Or.inl rfl
      · exact Or.inr ⟨other, hother, ⟨still, fun same => different (same ▸ rfl)⟩, rfl⟩
    · rintro (rfl | ⟨other, hother, ⟨still, another⟩, rfl⟩)
      · exact ⟨Or.inl rfl, takes.starts_ne List.mem_cons_self hslot hlive⟩
      · exact ⟨Or.inr ⟨other, hother, still, rfl⟩,
          takes.starts_ne (mem_slots_of_template hother) hslot
            (happart other hother another)⟩
  · intro other hother gone
    by_cases same : other = object
    · subst same
      exact Slot.content_fill hfits
    · rw [Slot.content_fill_apart hinside hfits (happart other hother same).symm]
      exact standing.done other hother fun again => gone ⟨again, same⟩
  · intro i clear
    rw [Slot.getElem?_fill_apart hinside hfits (clear object member)]
    exact standing.frame i clear

/-- What is answered when a template is restored. -/
def restored (base : Nat → Nat) (stock : List UInt8) (object : Path × Entry) :
    Except Failure Output :=
  .ok (.patched object.1 (place base object.2.ind) object.2.length
    (object.2.length - (normalise stock).length))

theorem Standing.restore (stands : scaffold.Stands tree base layout bootstrap m)
    (takes : scaffold.Takes base stock bootstrap) {left : Path × Entry → Prop}
    {now : List UInt8}
    (standing : scaffold.Standing tree base layout stock bootstrap m left now)
    {object : Path × Entry} (member : object ∈ scaffold.templates)
    (still : left object) :
    runCommand now (restoring stock bootstrap object) =
      (restored base stock object,
        (fileSlot base object.2).fill now (scriptBytes stock object.2.length)) := by
  have hplaced := stands.placed _ member
  obtain ⟨hentry, hfile, hcalibrated⟩ := mem_placed.mp hplaced
  obtain ⟨v, loaded, -, shows⟩ := standing.stored.load
  have hlocated := @Volume.locate_of_calibrated v object.1 bootstrap object.2 _
    ((shows.paths _ _).mpr hentry) hfile (by
      rw [Represents.offsetOf_eq shows, if_pos hcalibrated])
  exact patch_found takes loaded (mem_slots_of_template member) hlocated
    ((standing.found _).mpr (Or.inr ⟨object, member, still, rfl⟩))

/-- Templates are restored one after the other, in any order. -/
theorem Standing.run (stands : scaffold.Stands tree base layout bootstrap m)
    (takes : scaffold.Takes base stock bootstrap) {order : List (Path × Entry)}
    (known : ∀ object ∈ order, object ∈ scaffold.templates) (nodup : order.Nodup)
    {left : Path × Entry → Prop} (still : ∀ object ∈ order, left object)
    {now : List UInt8}
    (standing : scaffold.Standing tree base layout stock bootstrap m left now) :
    (session runCommand now (order.map (restoring stock bootstrap))).1 =
        order.map (restored base stock) ∧
      scaffold.Standing tree base layout stock bootstrap m
        (fun object => left object ∧ object ∉ order)
        (session runCommand now (order.map (restoring stock bootstrap))).2 := by
  induction order generalizing left now with
  | nil => simpa [session] using standing
  | cons object order ih =>
      rw [List.forall_mem_cons] at known still
      obtain ⟨hfresh, hnodup⟩ := List.nodup_cons.mp nodup
      have hstep := standing.restore stands takes known.1 still.1
      have hstill : ∀ other ∈ order, left other ∧ other ≠ object :=
        fun other member => ⟨still.2 other member, fun same => hfresh (same ▸ member)⟩
      obtain ⟨hanswers, hstanding⟩ := ih known.2 hnodup hstill
        (standing.fill stands takes known.1)
      rw [List.map_cons, session_cons, hstep, List.map_cons]
      refine ⟨congrArg _ hanswers, ?_⟩
      have hleft : (fun other => left other ∧ other ∉ object :: order) =
          fun other => (left other ∧ other ≠ object) ∧ other ∉ order := by
        funext other
        rw [List.mem_cons, not_or, and_assoc]
      rw [hleft]
      exact hstanding

/-! ## The guest's copy -/

/-- The copies that are found: the guest's, and those of the templates left. -/
theorem Standing.copies_perm (stands : scaffold.Stands tree base layout bootstrap m)
    (takes : scaffold.Takes base stock bootstrap) {left : Path × Entry → Prop}
    [DecidablePred left] {now : List UInt8}
    (standing : scaffold.Standing tree base layout stock bootstrap m left now) :
    (copies now bootstrap).Perm (scaffold.spot ::
      (scaffold.templates.filter left).map fun object =>
        (fileSlot base object.2).start) := by
  have hgiven : bootstrap ≠ [] := fun empty =>
    takes.other (empty ▸ List.nil_infix)
  refine (List.perm_ext_iff_of_nodup (copies_nodup now bootstrap)
    (List.nodup_cons.mpr ⟨?_, ?_⟩)).mpr fun place => ?_
  · intro again
    obtain ⟨object, member, same⟩ := List.mem_map.mp again
    have hmember := List.mem_of_mem_filter member
    exact takes.starts_ne (mem_slots_of_template hmember) List.mem_cons_self
      (stands.apart _ (stands.placed _ hmember)).symm same
  · refine (stands.nodup.filter _).map_on fun first hfirst second hsecond same => ?_
    by_contra different
    have hone := List.mem_of_mem_filter hfirst
    have hother := List.mem_of_mem_filter hsecond
    exact takes.starts_ne (mem_slots_of_template hone) (mem_slots_of_template hother)
      (templates_apart stands hone hother different) same
  · rw [← isCopy_iff hgiven, standing.found, List.mem_cons, List.mem_map]
    simp only [List.mem_filter, decide_eq_true_eq, and_assoc]

/-- The guest's copy is searched for. -/
theorem Standing.locate_live (stands : scaffold.Stands tree base layout bootstrap m)
    (takes : scaffold.Takes base stock bootstrap) {left : Path × Entry → Prop}
    {now : List UInt8}
    (standing : scaffold.Standing tree base layout stock bootstrap m left now) :
    ∃ v, Volume.load now = .ok v ∧ v.locate scaffold.live.1 bootstrap =
      answer scaffold.live.1 scaffold.live.2 bootstrap (copies now bootstrap) := by
  obtain ⟨v, loaded, opened, shows⟩ := standing.stored.load
  have hgiven : bootstrap ≠ [] := fun empty =>
    takes.other (empty ▸ List.nil_infix)
  have hunknown : v.offsetOf scaffold.live.2 = none := by
    rw [Represents.offsetOf_eq shows, stands.unknown, if_neg Bool.false_ne_true]
  have hlocate := Volume.locate_eq_answer ((shows.paths _ _).mpr stands.entry)
    stands.file hunknown hgiven
  rw [opened] at hlocate
  exact ⟨v, loaded, hlocate⟩

/-- While a template is left the guest's copy is not told from it. -/
theorem Standing.live_refused (stands : scaffold.Stands tree base layout bootstrap m)
    (takes : scaffold.Takes base stock bootstrap) {left : Path × Entry → Prop}
    {now : List UInt8}
    (standing : scaffold.Standing tree base layout stock bootstrap m left now)
    (many : 2 ≤ (copies now bootstrap).length) :
    runCommand now (restoring stock bootstrap scaffold.live) =
      (.error (.copies scaffold.live.1 (bootstrap.take 40)
        (copies now bootstrap).length ((copies now bootstrap).take 8)), now) := by
  obtain ⟨v, loaded, located⟩ := standing.locate_live stands takes
  have hanswer : answer scaffold.live.1 scaffold.live.2 bootstrap
      (copies now bootstrap) = .error (.copies scaffold.live.1 (bootstrap.take 40)
        (copies now bootstrap).length ((copies now bootstrap).take 8)) := by
    generalize copies now bootstrap = hits at many
    cases hits with
    | nil => exact absurd many (by simp)
    | cons hit hits =>
        cases hits with
        | nil => exact absurd many (by simp)
        | cons another hits => rfl
  simp only [restoring, runCommand, patchCommand, loaded, located, hanswer]

/-- When none is left it is the only copy, and the last to be restored. -/
theorem Standing.live_restored (stands : scaffold.Stands tree base layout bootstrap m)
    (takes : scaffold.Takes base stock bootstrap) {left : Path × Entry → Prop}
    {now : List UInt8}
    (standing : scaffold.Standing tree base layout stock bootstrap m left now)
    (none : ∀ object ∈ scaffold.templates, ¬ left object) :
    runCommand now (restoring stock bootstrap scaffold.live) =
        (.ok (.patched scaffold.live.1 scaffold.spot scaffold.live.2.length
            (scaffold.live.2.length - (normalise stock).length)),
          scaffold.liveSlot.fill now (scriptBytes stock scaffold.live.2.length)) ∧
      scaffold.Restored tree base layout stock bootstrap m
        (scaffold.liveSlot.fill now
          (scriptBytes stock scaffold.live.2.length)) := by
  have hgiven : bootstrap ≠ [] := fun empty =>
    takes.other (empty ▸ List.nil_infix)
  have hslot : scaffold.liveSlot ∈ scaffold.slots base := List.mem_cons_self
  have hinside := standing.inside stands
  have hfits : (scriptBytes stock scaffold.live.2.length).length =
      scaffold.liveSlot.size := scriptBytes_length (takes.fits _ hslot)
  have honly : ∀ place, IsCopy now bootstrap place ↔ place = scaffold.spot := by
    intro place
    rw [standing.found]
    refine or_iff_left ?_
    rintro ⟨object, member, still, -⟩
    exact none object member still
  have hcopies : copies now bootstrap = [scaffold.spot] :=
    (copies_eq_singleton_iff hgiven).mpr
      ⟨(honly _).mpr rfl, fun other copy => (honly other).mp copy⟩
  obtain ⟨v, loaded, located⟩ := standing.locate_live stands takes
  rw [hcopies, answer] at located
  refine ⟨patch_found takes loaded hslot located ((honly _).mpr rfl), ?_⟩
  refine ⟨standing.stored.fill_slot hinside stands.aligned stands.clear
    (takes.fits _ hslot) takes.clean, fun place copy => ?_, ?_,
    (Slot.fill_length hinside hfits).trans standing.length, ?_⟩
  · rw [isCopy_fill_iff hinside hfits stands.aligned takes.line takes.short
      (takes.script_clean _) (getLast?_scriptBytes _ _)
      (fun other copy different => absurd ((honly other).mp copy) different)]
      at copy
    exact copy.2 ((honly place).mp copy.1)
  · rw [slots, List.forall_mem_cons, List.forall_mem_map]
    refine ⟨Slot.content_fill hfits, fun object member => ?_⟩
    rw [Slot.content_fill_apart hinside hfits
      (stands.apart _ (stands.placed _ member))]
    exact standing.done object member (none object member)
  · intro i clear
    rw [slots, List.forall_mem_cons, List.forall_mem_map] at clear
    rw [Slot.getElem?_fill_apart hinside hfits clear.1]
    exact standing.frame i clear.2

end Scaffold

/--
The templates are restored in any order.  As long as one of them is not, the
guest's copy is refused and the image stays; when all are, it is restored too, and
no bootstrap is left.
-/
theorem scaffold_restored {scaffold : Scaffold} {tree : Tree} {base : Nat → Nat}
    {layout : Directory → Layout} {stock bootstrap m : List UInt8}
    (stands : scaffold.Stands tree base layout bootstrap m)
    (takes : scaffold.Takes base stock bootstrap) {order : List (Path × Entry)}
    (known : ∀ object ∈ order, object ∈ scaffold.templates) (nodup : order.Nodup)
    {answers : List (Except Failure Output)} {now : List UInt8}
    (run : session runCommand m (order.map (restoring stock bootstrap)) =
      (answers, now)) :
    answers = order.map (Scaffold.restored base stock) ∧
      ((∃ object ∈ scaffold.templates, object ∉ order) →
        ∃ hits : List Nat, hits.Perm (scaffold.spot ::
            (scaffold.templates.filter (· ∉ order)).map fun object =>
              (fileSlot base object.2).start) ∧
          runCommand now (restoring stock bootstrap scaffold.live) =
            (.error (.copies scaffold.live.1 (bootstrap.take 40) hits.length
              (hits.take 8)), now)) ∧
      ((∀ object ∈ scaffold.templates, object ∈ order) →
        ∃ left, runCommand now (restoring stock bootstrap scaffold.live) =
            (.ok (.patched scaffold.live.1 scaffold.spot scaffold.live.2.length
              (scaffold.live.2.length - (normalise stock).length)), left) ∧
          scaffold.Restored tree base layout stock bootstrap m left) := by
  obtain ⟨hanswers, hstanding⟩ := stands.standing.run stands takes known nodup
    fun _ _ => trivial
  rw [run] at hanswers hstanding
  simp only [true_and] at hstanding
  refine ⟨hanswers, ?_, fun all => ?_⟩
  · rintro ⟨object, member, skipped⟩
    have hperm := hstanding.copies_perm stands takes
    refine ⟨_, hperm, hstanding.live_refused stands takes ?_⟩
    have hleft : 0 < (scaffold.templates.filter (· ∉ order)).length :=
      List.length_pos_of_mem
        (List.mem_filter.mpr ⟨member, decide_eq_true skipped⟩)
    rw [hperm.length_eq, List.length_cons, List.length_map]
    exact Nat.succ_le_succ hleft
  · exact ⟨_, hstanding.live_restored stands takes fun object member left =>
      left (all object member)⟩

/-- A template in the root's fragment, and a copy in one that nothing makes known. -/
def hookTree : Tree :=
  ⟨256, .file ⟨ascii "!Boot", 0, 0, 4, 257, 3⟩
    (.file ⟨ascii "Apps", 0, 0, 3, 512, 3⟩ .nil)⟩

/-- Both begin with `X`, in sectors of their own. -/
def hookImage : List UInt8 :=
  sectorImage [blockBytes hookTree.root, [88, 89, LF, 90], [88, 90, LF]]

def hookScaffold : Scaffold where
  templates := hookTree.placed fun _ => 0
  live := (ascii "$.Apps", makeEntry 0 3 512 3 (ascii "Apps")
    (entriesAt (ascii "$") 0 + ENTRY))
  spot := 1024

theorem hookScaffold_stands :
    hookScaffold.Stands hookTree (fun _ => 0) plainLayout [88] hookImage := by
  refine ⟨⟨⟨by decide +kernel, fun _ => rfl, by decide +kernel⟩, by decide +kernel,
    by decide +kernel, by decide +kernel, by decide +kernel, by decide +kernel⟩,
    fun _ member => member, by decide +kernel, by decide +kernel, rfl,
    by decide +kernel, by decide +kernel, by decide, by decide +kernel,
    by decide +kernel, fun place => ?_⟩
  have hcopies : copies hookImage [88] = [512, 1024] := by decide +kernel
  have hstarts : (hookScaffold.slots fun _ => 0).map Slot.start = [1024, 512] := by
    decide +kernel
  rw [isCopy_iff (by decide), hcopies, ← List.mem_map, hstarts]
  simp only [List.mem_cons, List.not_mem_nil, or_false]
  exact or_comm

theorem hookScaffold_takes : hookScaffold.Takes (fun _ => 0) [83] [88] :=
  ⟨by decide, by decide, by decide, by decide, by decide, by decide +kernel,
    by decide +kernel⟩

/-- The two patches of `host_finalizeImage.sh`. -/
theorem scaffold_restored_hook :
    ∃ output left, runCommand (session runCommand hookImage
          (hookScaffold.templates.map (restoring [83] [88]))).2
        (restoring [83] [88] hookScaffold.live) = (.ok output, left) ∧
      hookScaffold.Restored hookTree (fun _ => 0) plainLayout [83] [88] hookImage
        left := by
  obtain ⟨left, run, restored⟩ := (scaffold_restored hookScaffold_stands
    hookScaffold_takes (fun _ member => member) hookScaffold_stands.nodup
    Prod.mk.eta.symm).2.2 fun _ member => member
  exact ⟨_, left, run, restored⟩

/-- In the other order the first of them is refused. -/
example : (runCommand hookImage (restoring [83] [88] hookScaffold.live)).1 =
    .error (.copies (ascii "$.Apps") [88] 2 [512, 1024]) := by
  decide +kernel

end RiscosBuilder.FileCore
