import RiscosBuilder.FileCore.Store

/-!
# The tool as a store

What `rofilecore.py` is for: the files of the volume by path, each in a slot of
fixed size, listed and patched by one command after the other.  The tool opens
the image anew for every command; on an image that holds a tree its commands
answer as the store does, whatever they have written before.
-/

namespace RiscosBuilder.FileCore

open RiscosBuilder.Library RiscosBuilder.Library.ByteImage

/-- The commands of `main` on one object, with their arguments. -/
inductive Command where
  | cat (path : Path) (expected : List UInt8)
  | whereAt (path : Path) (expected : List UInt8)
  | patch (path : Path) (source expected : List UInt8)
  deriving DecidableEq, Repr

def Command.path : Command → Path
  | cat path _ | whereAt path _ | patch path _ _ => path

/-- What is printed: the bytes, the place, or what was patched. -/
inductive Output where
  | content (data : List UInt8)
  | place (off : Int) (length : Nat)
  | patched (path : Path) (off : Int) (length pad : Nat)
  deriving DecidableEq, Repr

/-- A run of `main` on the image file, and the image that it leaves. -/
def runCommand (image : List UInt8) :
    Command → Except Failure Output × List UInt8
  | .cat path expected =>
      match Volume.load image with
      | .error failure => (.error failure, image)
      | .ok vol => ((vol.read path expected).map .content, image)
  | .whereAt path expected =>
      match Volume.load image with
      | .error failure => (.error failure, image)
      | .ok vol =>
          ((vol.locate path expected).map fun (off, length) =>
            .place off length, image)
  | .patch path source expected =>
      match patchCommand image path source expected with
      | (.error failure, left) => (.error failure, left)
      | (.ok (off, length, pad), left) =>
          (.ok (.patched path off length pad), left)

/-! ## The store -/

/-- What there is at a path. -/
inductive Object where
  | directory
  /-- A file of a fragment that no directory makes known. -/
  | unplaced (fragment : Nat)
  | file (off : Nat) (content : List UInt8)
  deriving DecidableEq, Repr

abbrev Store := Path → Option Object

namespace Store

/-- The file at a path: where it lies, and what it holds. -/
def find (store : Store) (path : Path) : Except Failure (Nat × List UInt8) :=
  match store path with
  | none => .error (.noObject path)
  | some .directory => .error (.isDirectory path)
  | some (.unplaced fragment) => .error (.uncalibrated path fragment)
  | some (.file off content) => .ok (off, content)

/-- One command: a patch that the file takes is all the file then holds. -/
def answer (store : Store) : Command → Except Failure Output × Store
  | .cat path _ => ((store.find path).map fun found => .content found.2, store)
  | .whereAt path _ =>
      ((store.find path).map fun found => .place found.1 found.2.length, store)
  | .patch path source expected =>
      match store.find path with
      | .error failure => (.error failure, store)
      | .ok (off, content) =>
          if ¬ expected <+: content then
            (.error (.refused off (expected.take 40) (content.take 40)), store)
          else if content.length < (normalise source).length then
            (.error (.tooLong (normalise source).length content.length), store)
          else
            (.ok (.patched path off content.length
              (content.length - (normalise source).length)),
              Function.update store path
                (some (.file off (scriptBytes source content.length))))

end Store

/-- The slot that a command fills, and with what. -/
def Store.writes (store : Store) : Command → Option (Slot × List UInt8)
  | .patch path source expected =>
      match store.find path with
      | .error _ => none
      | .ok (off, content) =>
          if expected <+: content ∧
              (normalise source).length ≤ content.length then
            some (⟨off, content.length⟩, scriptBytes source content.length)
          else none
  | _ => none

/-- The object that an entry of the tree stands for. -/
def objectOf (tree : Tree) (base : Nat → Nat) (m : List UInt8) (e : Entry) :
    Object :=
  if e.isdir then .directory
  else if tree.calibrated (e.ind / 256) then
    .file (place base e.ind) ((fileSlot base e).content m)
  else .unplaced (e.ind / 256)

/-- The image holds the tree, and the slots hold what the store says. -/
structure Represents (tree : Tree) (base : Nat → Nat)
    (layout : Directory → Layout) (m : List UInt8) (store : Store) : Prop where
  stored : Stored m tree base layout
  objects : ∀ path object, store path = some object ↔
    ∃ e, (path, e) ∈ tree.entries (place base) ∧ object = objectOf tree base m e

/-- The file is not one to be searched for by its first bytes. -/
def Tree.Known (tree : Tree) (base : Nat → Nat) (path : Path)
    (expected : List UInt8) : Prop :=
  expected = [] ∨ ∀ object ∈ tree.entries (place base), object.1 = path →
    object.2.isdir = true ∨ tree.calibrated (object.2.ind / 256) = true

instance (tree : Tree) (base : Nat → Nat) (path : Path)
    (expected : List UInt8) : Decidable (tree.Known base path expected) :=
  inferInstanceAs (Decidable (_ ∨ _))

/-- No search by content is needed, and what is written holds no magic. -/
def Command.Plain (tree : Tree) (base : Nat → Nat) : Command → Prop
  | cat path expected | whereAt path expected => tree.Known base path expected
  | patch path source expected =>
      tree.Known base path expected ∧ ¬ SBPr <:+: source

instance (tree : Tree) (base : Nat → Nat) :
    DecidablePred (Command.Plain tree base)
  | .cat _ _ | .whereAt _ _ => inferInstanceAs (Decidable (Tree.Known _ _ _ _))
  | .patch _ _ _ => inferInstanceAs (Decidable (_ ∧ _))

namespace Represents

variable {tree : Tree} {base : Nat → Nat} {layout : Directory → Layout}
  {m : List UInt8} {store : Store}

theorem missing_iff (represents : Represents tree base layout m store)
    (path : Path) :
    store path = none ↔ ∀ e, (path, e) ∉ tree.entries (place base) := by
  constructor
  · intro missing e member
    have hobject := (represents.objects path _).mpr ⟨e, member, rfl⟩
    simp [missing] at hobject
  · intro absent
    cases listed : store path with
    | none => rfl
    | some object =>
        obtain ⟨e, member, -⟩ := (represents.objects path object).mp listed
        exact absurd member (absent e)

/-- A path names one entry. -/
theorem entry_unique (represents : Represents tree base layout m store)
    {path : Path} {first second : Entry}
    (one : (path, first) ∈ tree.entries (place base))
    (other : (path, second) ∈ tree.entries (place base)) : first = second := by
  have hsame := List.inj_on_of_nodup_map
    (represents.stored.valid.entries_nodup (place base)) one other rfl
  exact (Prod.mk.inj hsame).2

theorem offsetOf_eq {v : Volume} (shows : Shows v tree base) (e : Entry) :
    v.offsetOf e = if tree.calibrated (e.ind / 256) then
      some (place base e.ind : Int) else none := by
  rw [shows.offsets]
  congr 1
  simp only [Tree.calibrated, List.any_eq_true, decide_eq_true_eq]

/-- The tool looks a file up as the store does. -/
theorem locate_eq (represents : Represents tree base layout m store)
    {v : Volume} (shows : Shows v tree base) {path : Path}
    {expected : List UInt8} (known : tree.Known base path expected) :
    v.locate path expected = (store.find path).map fun found =>
      ((found.1 : Int), found.2.length) := by
  cases listed : v.paths path with
  | none =>
      have hmissing : store path = none :=
        (represents.missing_iff path).mpr fun e member => by
          simp [(shows.paths path e).mpr member] at listed
      rw [Volume.locate, Store.find, listed, hmissing]
      rfl
  | some e =>
      have hmember := (shows.paths path e).mp listed
      have hobject := (represents.objects path _).mpr ⟨e, hmember, rfl⟩
      rw [Volume.locate, Store.find, listed, hobject, objectOf]
      by_cases directory : e.isdir = true
      · simp [directory, Except.map]
      · by_cases calibrated : tree.calibrated (e.ind / 256) = true
        · have hplaced := mem_placed.mpr
            ⟨hmember, Bool.not_eq_true _ ▸ directory, calibrated⟩
          have hlength : ((fileSlot base e).content m).length = e.length :=
            Slot.content_length (represents.stored.inside _ hplaced)
          simp only [directory, calibrated, offsetOf_eq shows, hlength,
            Bool.false_eq_true, if_false, if_true, Except.map]
        · have hempty : expected = [] := by
            rcases known with empty | all
            · exact empty
            · rcases all _ hmember rfl with isDirectory | isCalibrated
              · exact absurd isDirectory directory
              · exact absurd isCalibrated calibrated
          simp [directory, calibrated, offsetOf_eq shows, hempty, Except.map]

/-- What the store finds is what stands in a slot of the image. -/
theorem find_ok (represents : Represents tree base layout m store)
    {path : Path} {off : Nat} {content : List UInt8}
    (found : store.find path = .ok (off, content)) :
    ∃ object ∈ tree.placed base, object.1 = path ∧
      off = (fileSlot base object.2).start ∧
      content = (fileSlot base object.2).content m ∧
      content.length = object.2.length := by
  unfold Store.find at found
  split at found
  · simp at found
  · simp at found
  · simp at found
  · next place bytes listed =>
      rw [Except.ok.injEq, Prod.mk.injEq] at found
      obtain ⟨rfl, rfl⟩ := found
      obtain ⟨e, member, hobject⟩ := (represents.objects path _).mp listed
      unfold objectOf at hobject
      split at hobject
      · simp at hobject
      · next file =>
          split at hobject
          · next calibrated =>
              rw [Object.file.injEq] at hobject
              have hplaced := mem_placed.mpr
                ⟨member, Bool.not_eq_true _ ▸ file, calibrated⟩
              refine ⟨(path, e), hplaced, rfl, hobject.1, hobject.2, ?_⟩
              rw [hobject.2]
              exact Slot.content_length (represents.stored.inside _ hplaced)
          · simp at hobject

/-- What a file held is read from its slot. -/
theorem read_eq (represents : Represents tree base layout m store)
    {v : Volume} (opened : v.m = m) (shows : Shows v tree base) {path : Path}
    {expected : List UInt8} (known : tree.Known base path expected) :
    v.read path expected = (store.find path).map fun found => found.2 := by
  have hlocated := represents.locate_eq shows known
  cases listed : store.find path with
  | error failure =>
      rw [listed] at hlocated
      rw [Volume.read, hlocated]
      rfl
  | ok found =>
      obtain ⟨off, content⟩ := found
      rw [listed] at hlocated
      obtain ⟨object, hplaced, -, hoff, hcontent, hlength⟩ :=
        represents.find_ok listed
      have hinside := represents.stored.inside object hplaced
      unfold Slot.Inside Slot.stop at hinside
      rw [← hoff] at hinside
      simp only [fileSlot] at hinside
      rw [Volume.read_of_locate hlocated (Int.natCast_nonneg off)
        (by rw [opened]; simp only; omega)]
      rw [opened, Int.toNat_natCast, hlength, hoff]
      simp only [Except.map, Except.ok.injEq]
      exact hcontent.symm

/-- A text that a slot takes becomes all that its file holds. -/
theorem update (represents : Represents tree base layout m store)
    {object : Path × Entry} (member : object ∈ tree.placed base)
    {body : List UInt8} (fits : (normalise body).length ≤ object.2.length)
    (clean : ¬ SBPr <:+: body) :
    Represents tree base layout
      ((fileSlot base object.2).fill m (scriptBytes body object.2.length))
      (Function.update store object.1
        (some (.file (fileSlot base object.2).start
          (scriptBytes body object.2.length)))) := by
  have hinside := represents.stored.inside object member
  have hfits : (scriptBytes body object.2.length).length =
      (fileSlot base object.2).size := scriptBytes_length fits
  obtain ⟨hentry, hfile, hcalibrated⟩ := mem_placed.mp member
  refine ⟨represents.stored.fill member fits clean, fun path other => ?_⟩
  by_cases same : path = object.1
  · subst same
    have hobject : objectOf tree base ((fileSlot base object.2).fill m
        (scriptBytes body object.2.length)) object.2 =
          .file (fileSlot base object.2).start
            (scriptBytes body object.2.length) := by
      rw [objectOf, if_neg (by simp [hfile]), if_pos hcalibrated,
        Slot.content_fill hfits]
      rfl
    rw [Function.update_self, Option.some.injEq]
    constructor
    · rintro rfl
      exact ⟨object.2, hentry, hobject.symm⟩
    · rintro ⟨e, helse, rfl⟩
      rw [represents.entry_unique helse hentry, hobject]
  · rw [Function.update_of_ne same, represents.objects]
    have hobject : ∀ e, (path, e) ∈ tree.entries (place base) →
        objectOf tree base ((fileSlot base object.2).fill m
          (scriptBytes body object.2.length)) e = objectOf tree base m e := by
      intro e helse
      unfold objectOf
      by_cases placed : e.isdir = false ∧ tree.calibrated (e.ind / 256) = true
      · have hplaced := mem_placed.mpr ⟨helse, placed⟩
        rw [Slot.content_fill_apart hinside hfits
          (represents.stored.slots_apart member hplaced
            fun equal => same (equal ▸ rfl))]
      · cases directory : e.isdir with
        | true => rfl
        | false =>
            cases calibrated : tree.calibrated (e.ind / 256) with
            | false => rfl
            | true => exact absurd ⟨directory, calibrated⟩ placed
    constructor
    · rintro ⟨e, helse, rfl⟩
      exact ⟨e, helse, (hobject e helse).symm⟩
    · rintro ⟨e, helse, rfl⟩
      exact ⟨e, helse, hobject e helse⟩

/-- What `patch` makes of a file that the tool locates. -/
theorem patchCommand_eq {v : Volume} (loaded : Volume.load m = .ok v)
    {path : Path} (source : List UInt8) {expected : List UInt8}
    {off length : Nat}
    (located : v.locate path expected = .ok ((off : Int), length)) :
    patchCommand m path source expected =
      if ¬ expected <+: slice m off (off + length) then
        (.error (.refused off (expected.take 40)
          ((slice m off (off + length)).take 40)), m)
      else if length < (normalise source).length then
        (.error (.tooLong (normalise source).length length), m)
      else
        (.ok (off, length, length - (normalise source).length),
          Slot.fill m ⟨off, length⟩ (scriptBytes source length)) := by
  have hpositive : ¬ (off : Int) < 0 := by omega
  simp only [patchCommand, loaded, located, patchInPlace, if_neg hpositive,
    Int.toNat_natCast]
  by_cases matching : expected <+: slice m off (off + length)
  · by_cases long : length < (normalise source).length
    · simp [matching, long]
    · have hfits := scriptBytes_length (Nat.le_of_not_lt long)
      unfold scriptBytes at hfits
      simp only [matching, not_true_eq_false, if_false, gt_iff_lt, if_neg long,
        hfits, ne_eq]
      rfl
  · simp [matching]

/--
A command answers as the store does; what the image is then is what the store
is then, and the command has filled the slot that the store says.
-/
theorem run (represents : Represents tree base layout m store)
    {command : Command} (plain : command.Plain tree base) :
    (runCommand m command).1 = (store.answer command).1 ∧
      Represents tree base layout (runCommand m command).2
        (store.answer command).2 ∧
      (runCommand m command).2 =
        (store.writes command).elim m fun change => change.1.fill m change.2 := by
  obtain ⟨v, loaded, opened, shows⟩ := represents.stored.load
  cases command with
  | cat path expected =>
      simp only [runCommand, loaded, Store.answer,
        represents.read_eq opened shows plain]
      refine ⟨?_, represents, rfl⟩
      cases store.find path with
      | error failure => rfl
      | ok found => rfl
  | whereAt path expected =>
      simp only [runCommand, loaded, Store.answer,
        represents.locate_eq shows plain]
      refine ⟨?_, represents, rfl⟩
      cases store.find path with
      | error failure => rfl
      | ok found => rfl
  | patch path source expected =>
      obtain ⟨known, clean⟩ := plain
      have hlocated := represents.locate_eq shows known
      cases listed : store.find path with
      | error failure =>
          rw [listed] at hlocated
          simp only [runCommand, patchCommand, loaded, hlocated, Store.answer,
            Store.writes, listed, Except.map]
          exact ⟨trivial, represents, rfl⟩
      | ok found =>
          obtain ⟨off, content⟩ := found
          rw [listed] at hlocated
          obtain ⟨object, hplaced, rfl, hoff, hcontent, hlength⟩ :=
            represents.find_ok listed
          have hinside := represents.stored.inside object hplaced
          have hslice : slice m off (off + content.length) = content := by
            rw [hlength, hcontent, hoff]
            rfl
          have hrun := patchCommand_eq loaded source hlocated
          simp only [hslice] at hrun
          simp only [runCommand, hrun, Store.answer, Store.writes, listed]
          by_cases matching : expected <+: content
          · by_cases long : content.length < (normalise source).length
            · have hshort := Nat.not_le_of_lt long
              simp only [matching, not_true_eq_false, if_false, if_pos long,
                hshort, and_false]
              exact ⟨trivial, represents, rfl⟩
            · have hfits := Nat.le_of_not_lt long
              have hupdate := represents.update hplaced
                (hlength ▸ hfits) clean
              simp only [matching, not_true_eq_false, if_false, if_neg long,
                hfits, and_self, if_true, Option.elim]
              refine ⟨trivial, ?_, trivial⟩
              rw [hoff, hlength]
              exact hupdate
          · simp only [matching, not_false_eq_true, if_true, false_and,
              if_false]
            exact ⟨trivial, represents, rfl⟩

/-- What a command writes fits into the slot of its file. -/
theorem writes_slot (represents : Represents tree base layout m store)
    {command : Command} {slot : Slot} {bytes : List UInt8}
    (writes : store.writes command = some (slot, bytes)) :
    ∃ object ∈ tree.placed base, object.1 = command.path ∧
      slot = fileSlot base object.2 ∧ bytes.length = slot.size := by
  cases command with
  | cat path expected => simp [Store.writes] at writes
  | whereAt path expected => simp [Store.writes] at writes
  | patch path source expected =>
      simp only [Store.writes] at writes
      cases listed : store.find path with
      | error failure => simp [listed] at writes
      | ok found =>
          obtain ⟨off, content⟩ := found
          obtain ⟨object, hplaced, hpath, hoff, -, hlength⟩ :=
            represents.find_ok listed
          by_cases fits : expected <+: content ∧
              (normalise source).length ≤ content.length
          · simp only [listed, if_pos fits, Option.some.injEq,
              Prod.mk.injEq] at writes
            obtain ⟨rfl, rfl⟩ := writes
            exact ⟨object, hplaced, hpath, by rw [hoff, hlength]; rfl,
              scriptBytes_length fits.2⟩
          · simp [listed, fits] at writes

end Represents

namespace Store

variable {command : Command}

/-- A command answers by what there is at its own path. -/
theorem answer_congr {store other : Store} (same : store command.path = other command.path) :
    (store.answer command).1 = (other.answer command).1 ∧
      store.writes command = other.writes command := by
  have hfind : store.find command.path = other.find command.path := by
    rw [find, find, same]
  cases command with
  | cat path expected =>
      simp only [Command.path] at hfind
      exact ⟨by simp only [answer, hfind], rfl⟩
  | whereAt path expected =>
      simp only [Command.path] at hfind
      exact ⟨by simp only [answer, hfind], rfl⟩
  | patch path source expected =>
      simp only [Command.path] at hfind
      simp only [answer, writes, hfind]
      refine ⟨?_, trivial⟩
      cases other.find path with
      | error failure => rfl
      | ok found =>
          simp only
          split
          · rfl
          · split <;> rfl

/-- And changes nothing at another. -/
theorem answer_other (store : Store) {path : Path} (different : path ≠ command.path) :
    (store.answer command).2 path = store path := by
  cases command with
  | cat _ _ => rfl
  | whereAt _ _ => rfl
  | patch file source expected =>
      simp only [answer]
      split
      · rfl
      · split
        · rfl
        · split
          · rfl
          · exact Function.update_of_ne different _ _

end Store

/-- The store that an image holds with the tree. -/
def storeOf (tree : Tree) (base : Nat → Nat) (m : List UInt8) : Store :=
  fun path => ((tree.entries (place base)).find? fun object =>
    object.1 = path).map fun object => objectOf tree base m object.2

section Runs

variable {tree : Tree} {base : Nat → Nat} {layout : Directory → Layout}
  {m : List UInt8}

theorem Stored.represents (stored : Stored m tree base layout) :
    Represents tree base layout m (storeOf tree base m) := by
  refine ⟨stored, fun path object => ?_⟩
  have hnodup := stored.valid.entries_nodup (place base)
  rw [storeOf, Option.map_eq_some_iff]
  constructor
  · rintro ⟨found, hfound, rfl⟩
    have hpath : found.1 = path := by simpa using List.find?_some hfound
    have hmember := List.mem_of_find?_eq_some hfound
    exact ⟨found.2, hpath ▸ hmember, rfl⟩
  · rintro ⟨e, member, rfl⟩
    cases hfound : (tree.entries (place base)).find? fun object =>
        decide (object.1 = path) with
    | none =>
        have hnone := List.find?_eq_none.mp hfound (path, e) member
        simp at hnone
    | some found =>
        have hpath : found.1 = path := by simpa using List.find?_some hfound
        have hsame := List.inj_on_of_nodup_map hnodup
          (List.mem_of_find?_eq_some hfound) member hpath
        exact ⟨found, rfl, by rw [hsame]⟩

theorem Represents.store_eq {store : Store}
    (represents : Represents tree base layout m store) :
    storeOf tree base m = store := by
  funext path
  apply Option.ext
  intro object
  rw [represents.stored.represents.objects, represents.objects]

/--
On an image that holds a tree, any sequence of commands answers as the store
does, and the image then holds the tree with what the store then has.
-/
theorem commands_refine (stored : Stored m tree base layout)
    {commands : List Command}
    (plain : ∀ command ∈ commands, command.Plain tree base) :
    (session runCommand m commands).1 =
        (session Store.answer (storeOf tree base m) commands).1 ∧
      Stored (session runCommand m commands).2 tree base layout ∧
      storeOf tree base (session runCommand m commands).2 =
        (session Store.answer (storeOf tree base m) commands).2 := by
  have hrefines : Refines runCommand Store.answer
      (Represents tree base layout) (Command.Plain tree base) :=
    fun _ _ _ represents plain =>
      ⟨(represents.run plain).1, (represents.run plain).2.1⟩
  obtain ⟨hanswers, hlast⟩ := hrefines.session stored.represents plain
  exact ⟨hanswers, hlast.stored, hlast.store_eq⟩

/-- Two files, each in a sector of the root's fragment. -/
def bootTree : Tree :=
  ⟨256, .file ⟨ascii "!Boot", 0, 0, 4, 257, 3⟩
    (.file ⟨ascii "Apps", 0, 0, 3, 258, 3⟩ .nil)⟩

/-- The root's block, and the files. -/
def bootImage : List UInt8 :=
  sectorImage [blockBytes bootTree.root, [65, LF, 66, LF], [67, 68, LF]]

theorem bootImage_stored :
    Stored bootImage bootTree (fun _ => 0) plainLayout :=
  ⟨⟨by decide +kernel, fun _ => rfl, by decide +kernel⟩, by decide +kernel,
    by decide +kernel, by decide +kernel, by decide +kernel,
    by decide +kernel⟩

/-- The boot script is patched, patched again and printed. -/
def bootCommands : List Command :=
  [.patch (ascii "$.!Boot") [88] [65], .patch (ascii "$.!Boot") [89, 89] [88],
    .cat (ascii "$.!Boot") []]

theorem commands_refine_boot :
    (session runCommand bootImage bootCommands).1 =
        (session Store.answer (storeOf bootTree (fun _ => 0) bootImage)
          bootCommands).1 ∧
      Stored (session runCommand bootImage bootCommands).2 bootTree
        (fun _ => 0) plainLayout ∧
      storeOf bootTree (fun _ => 0)
          (session runCommand bootImage bootCommands).2 =
        (session Store.answer (storeOf bootTree (fun _ => 0) bootImage)
          bootCommands).2 :=
  @commands_refine _ _ _ _ bootImage_stored bootCommands (by decide +kernel)

/-- Commands on different files do not notice each other. -/
theorem Stored.commute (stored : Stored m tree base layout)
    {first second : Command} (plainFirst : first.Plain tree base)
    (plainSecond : second.Plain tree base)
    (different : first.path ≠ second.path) :
    Commute runCommand m first second := by
  have represents := stored.represents
  obtain ⟨hfirst, hafterFirst, himageFirst⟩ := represents.run plainFirst
  obtain ⟨hsecond, hafterSecond, himageSecond⟩ := represents.run plainSecond
  obtain ⟨hlateFirst, -, hlateImageFirst⟩ := hafterSecond.run plainFirst
  obtain ⟨hlateSecond, -, hlateImageSecond⟩ := hafterFirst.run plainSecond
  have hkept := (storeOf tree base m).answer_other different
  have hotherKept := (storeOf tree base m).answer_other different.symm
  obtain ⟨hsameFirst, hwritesFirst⟩ := Store.answer_congr hkept
  obtain ⟨hsameSecond, hwritesSecond⟩ := Store.answer_congr hotherKept
  refine ⟨by rw [hlateFirst, hsameFirst, hfirst],
    by rw [hlateSecond, hsameSecond, hsecond], ?_⟩
  rw [hlateImageFirst, hlateImageSecond, hwritesFirst, hwritesSecond,
    himageFirst, himageSecond]
  cases hchange : (storeOf tree base m).writes first with
  | none => rfl
  | some change =>
      cases hother : (storeOf tree base m).writes second with
      | none => rfl
      | some otherChange =>
          obtain ⟨slot, bytes⟩ := change
          obtain ⟨otherSlot, otherBytes⟩ := otherChange
          obtain ⟨object, hplaced, hpath, rfl, hfits⟩ :=
            represents.writes_slot hchange
          obtain ⟨otherObject, hotherPlaced, hotherPath, rfl, hotherFits⟩ :=
            represents.writes_slot hother
          exact Slot.fill_comm (stored.inside object hplaced)
            (stored.inside otherObject hotherPlaced) hfits hotherFits
            (stored.slots_apart hplaced hotherPlaced fun same =>
              different (by rw [← hpath, ← hotherPath, same]))

/--
Commands on different files may come in any order: each keeps its answer, and
the image is the same to the last byte.
-/
theorem commands_any_order (stored : Stored m tree base layout)
    {commands others : List Command} (perm : commands.Perm others)
    (plain : ∀ command ∈ commands, command.Plain tree base)
    (different : commands.Pairwise fun first second =>
      first.path ≠ second.path) :
    (session runCommand m commands).2 = (session runCommand m others).2 ∧
      (commands.zip (session runCommand m commands).1).Perm
        (others.zip (session runCommand m others).1) :=
  session_perm (I := fun image => Stored image tree base layout)
    (fun apart => apart.symm)
    (fun _ _ stored plain => (stored.represents.run plain).2.1.stored)
    (fun _ _ _ stored plainFirst plainSecond apart =>
      stored.commute plainFirst plainSecond apart)
    perm stored plain different

/-- A patch of the boot script and one of the other file. -/
theorem commands_any_order_boot :
    (session runCommand bootImage
        [.patch (ascii "$.!Boot") [88] [65],
          .patch (ascii "$.Apps") [89] [67]]).2 =
      (session runCommand bootImage
        [.patch (ascii "$.Apps") [89] [67],
          .patch (ascii "$.!Boot") [88] [65]]).2 ∧
    ([Command.patch (ascii "$.!Boot") [88] [65],
        .patch (ascii "$.Apps") [89] [67]].zip
      (session runCommand bootImage
        [.patch (ascii "$.!Boot") [88] [65],
          .patch (ascii "$.Apps") [89] [67]]).1).Perm
      ([Command.patch (ascii "$.Apps") [89] [67],
        .patch (ascii "$.!Boot") [88] [65]].zip
        (session runCommand bootImage
          [.patch (ascii "$.Apps") [89] [67],
            .patch (ascii "$.!Boot") [88] [65]]).1) :=
  commands_any_order bootImage_stored (List.Perm.swap _ _ _)
    (by decide +kernel) (by decide +kernel)

end Runs

end RiscosBuilder.FileCore
