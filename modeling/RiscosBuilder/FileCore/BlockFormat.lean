import RiscosBuilder.FileCore.Directory
import Mathlib.Tactic.MkIffOfInductiveProp

/-!
# Well-formed directory blocks

The format that the head of `files/rofilecore.py` describes, stated from the
writer's side: what bytes a directory block consists of and where they stand.
`_parse_at` reads back exactly the directory that was written.
-/

namespace RiscosBuilder.FileCore

open RiscosBuilder.Library RiscosBuilder.Library.ByteImage

/-- An object, as the entry in its parent describes it. -/
structure Info where
  name : List UInt8
  load : Nat
  exec : Nat
  length : Nat
  ind : Nat
  attr : Nat
  deriving DecidableEq, Repr

/-- The object fits into a directory entry. -/
@[mk_iff]
structure Info.Fits (info : Info) : Prop where
  name_length : info.name.length ≤ 64
  name_printable : printable info.name = true
  load_lt : info.load < 2 ^ 32
  exec_lt : info.exec < 2 ^ 32
  length_lt : info.length < 2 ^ 32
  ind_lt : info.ind < 2 ^ 32
  attr_lt : info.attr < 2 ^ 32

instance (info : Info) : Decidable info.Fits :=
  decidable_of_iff _ (Info.fits_iff info).symm

/-- A directory: its own name and address, its parent's, and what it holds. -/
structure Directory where
  name : List UInt8
  addr : Nat
  parent : Nat
  infos : List Info
  deriving DecidableEq, Repr

/-- The directory fits into a block. -/
@[mk_iff]
structure Directory.Fits (d : Directory) : Prop where
  name_pos : 0 < d.name.length
  name_lt : d.name.length < 64
  name_printable : printable d.name = true
  infos_pos : 0 < d.infos.length
  infos_lt : d.infos.length < 4000
  parent_lt : d.parent < 2 ^ 32
  infos_fit : ∀ info ∈ d.infos, info.Fits

instance (d : Directory) : Decidable d.Fits :=
  decidable_of_iff _ (Directory.fits_iff d).symm

/-- What the writer of a block is free to choose. -/
structure Layout where
  size : Nat
  namesSize : Nat
  offsets : List Nat
  deriving DecidableEq, Repr

/-- The magic and the words behind it, up to the end of the directory's name. -/
def headerBytes (d : Directory) (layout : Layout) : List UInt8 :=
  SBPr ++ packWords [d.name.length, layout.size, d.infos.length,
    layout.namesSize, d.parent] ++ d.name

/-- The seven words of one entry, with its name at `offset` in the heap. -/
def entryBytes (info : Info) (offset : Nat) : List UInt8 :=
  packWords [info.load, info.exec, info.length, info.ind, info.attr,
    info.name.length, offset]

/-- Where the entries of a block at `off` start, for a directory of that name. -/
def entriesAt (name : List UInt8) (off : Nat) : Nat :=
  off + 28 + align4 (name.length + 1)

/-- Where its name heap starts. -/
def heapAt (d : Directory) (off : Nat) : Nat :=
  entriesAt d.name off + ENTRY * d.infos.length

/-- A block for the directory stands at `off` in the image. -/
@[mk_iff]
structure BlockAt (m : List UInt8) (off : Nat) (d : Directory)
    (layout : Layout) : Prop where
  size_pos : 0 < layout.size
  size_le : layout.size ≤ 2 ^ 22
  paired : layout.offsets.length = d.infos.length
  header : Holds m (off + 4) (headerBytes d layout)
  entries : Holds m (entriesAt d.name off)
    ((d.infos.zip layout.offsets).flatMap fun pair =>
      entryBytes pair.1 pair.2)
  heap : heapAt d off + layout.namesSize ≤ m.length
  namesSize_lt : layout.namesSize < 2 ^ 32
  names_inside : ∀ pair ∈ d.infos.zip layout.offsets,
    pair.2 + pair.1.name.length ≤ layout.namesSize
  names : ∀ pair ∈ d.infos.zip layout.offsets,
    Holds m (heapAt d off + pair.2) pair.1.name

instance (m : List UInt8) (off : Nat) (d : Directory) (layout : Layout) :
    Decidable (BlockAt m off d layout) :=
  decidable_of_iff _ (blockAt_iff m off d layout).symm

/-- The entries read from a block, the first of them at `e`. -/
def entriesFrom : List Info → Nat → List Entry
  | [], _ => []
  | info :: infos, e =>
      makeEntry info.load info.length info.ind info.attr info.name e ::
        entriesFrom infos (e + ENTRY)

/-- The block as `_parse_at` returns it. -/
def blockOf (d : Directory) (off : Nat) : Dir :=
  ⟨off + 4, off, d.name, d.parent, entriesFrom d.infos (entriesAt d.name off)⟩

/-- Names one behind the other, the first of them at `start` in the heap. -/
def nameOffsets : Nat → List Info → List Nat
  | _, [] => []
  | start, info :: infos =>
      start :: nameOffsets (start + info.name.length) infos

/-- The layout whose heap holds the names in order and nothing else. -/
def plainLayout (d : Directory) : Layout where
  size := 2048
  namesSize := (d.infos.map fun info => info.name.length).sum
  offsets := nameOffsets 0 d.infos

/-- The bytes of a block in that layout. -/
def blockBytes (d : Directory) : List UInt8 :=
  List.replicate 4 0 ++ headerBytes d (plainLayout d) ++
    List.replicate (align4 (d.name.length + 1) - d.name.length) 0 ++
    (d.infos.zip (plainLayout d).offsets).flatMap (fun pair =>
      entryBytes pair.1 pair.2) ++
    d.infos.flatMap Info.name

/-- An image that holds the given bytes at the start of its sectors. -/
def sectorImage (sectors : List (List UInt8)) : List UInt8 :=
  sectors.flatMap fun bytes =>
    bytes ++ List.replicate (SECTOR - bytes.length) 0

theorem entryBytes_length (info : Info) (offset : Nat) :
    (entryBytes info offset).length = ENTRY := by
  simp [entryBytes, ENTRY]

@[simp] theorem entriesFrom_length (infos : List Info) (e : Nat) :
    (entriesFrom infos e).length = infos.length := by
  induction infos generalizing e with
  | nil => rfl
  | cons info infos ih => simp [entriesFrom, ih]

theorem entriesFrom_names (infos : List Info) (e : Nat) :
    (entriesFrom infos e).map Entry.name = infos.map Info.name := by
  induction infos generalizing e with
  | nil => rfl
  | cons info infos ih => simp [entriesFrom, makeEntry, ih]

/-- The entry loop reads back the entries from the `i`-th on. -/
theorem parseEntries_of_holds {m : List UInt8} {ebase hbase namesSize : Nat}
    {infos : List Info} {offsets : List Nat} {i : Nat}
    (paired : offsets.length = infos.length)
    (holds : Holds m (ebase + ENTRY * i)
      ((infos.zip offsets).flatMap fun pair => entryBytes pair.1 pair.2))
    (fits : ∀ info ∈ infos, info.Fits)
    (namesSize_lt : namesSize < 2 ^ 32)
    (inside : ∀ pair ∈ infos.zip offsets,
      pair.2 + pair.1.name.length ≤ namesSize)
    (names : ∀ pair ∈ infos.zip offsets,
      Holds m (hbase + pair.2) pair.1.name) :
    parseEntries m ebase hbase namesSize i infos.length =
      .ok (some (entriesFrom infos (ebase + ENTRY * i))) := by
  induction infos generalizing offsets i with
  | nil => rfl
  | cons info infos ih =>
      cases offsets with
      | nil => simp at paired
      | cons offset offsets =>
          rw [List.zip_cons_cons, List.flatMap_cons, holds_append,
            entryBytes_length] at holds
          rw [List.zip_cons_cons] at inside names
          have hfits := fits info List.mem_cons_self
          have hinside := inside (info, offset) List.mem_cons_self
          have hname := (names (info, offset) List.mem_cons_self).slice_eq
          have hwords := unpackFrom_of_holds holds.1 (by simp) (by
            have hlength := hfits.name_length
            simp only [List.mem_cons, List.not_mem_nil, or_false]
            rintro value (rfl | rfl | rfl | rfl | rfl | rfl | rfl)
            · exact hfits.load_lt
            · exact hfits.exec_lt
            · exact hfits.length_lt
            · exact hfits.ind_lt
            · exact hfits.attr_lt
            · omega
            · simp only at hinside
              omega)
          have hrest := @ih offsets (i + 1)
            (by simpa using paired)
            (by rw [Nat.mul_add, Nat.mul_one, ← Nat.add_assoc]; exact holds.2)
            (fun other member => fits other (List.mem_cons_of_mem _ member))
            (fun pair member => inside pair (List.mem_cons_of_mem _ member))
            (fun pair member => names pair (List.mem_cons_of_mem _ member))
          have hguard : ¬ (info.name.length > 64 ∨ offset > namesSize + 64) := by
            have hlength := hfits.name_length
            simp only at hinside
            omega
          rw [List.length_cons, parseEntries]
          simp only [List.length_cons, List.length_nil] at hwords
          simp only [hwords, if_neg hguard, hname, hfits.name_printable,
            hrest, Bool.not_true, Bool.false_eq_true, if_false]
          rw [entriesFrom, Nat.mul_add, Nat.mul_one, Nat.add_assoc]

/-- `_parse_at` reads back the directory that a block was written for. -/
theorem parseAt_of_blockAt {m : List UInt8} {off : Nat} {d : Directory}
    {layout : Layout} (block : BlockAt m off d layout) (fits : d.Fits) :
    parseAt m (off + 4) = .ok (some (blockOf d off)) := by
  have hheader := block.header
  rw [headerBytes, List.append_assoc, holds_append, holds_append,
    packWords_length] at hheader
  obtain ⟨-, hwords, hname⟩ := hheader
  have hunpacked := unpackFrom_of_holds hwords (by simp) (by
    have hsize := block.size_le
    have hlength := fits.name_lt
    have hinfos := fits.infos_lt
    simp only [List.mem_cons, List.not_mem_nil, or_false]
    rintro value (rfl | rfl | rfl | rfl | rfl)
    · omega
    · omega
    · omega
    · exact block.namesSize_lt
    · exact fits.parent_lt)
  have hdirname := hname.slice_eq
  have hentries := parseEntries_of_holds (i := 0) block.paired
    (by simpa using block.entries) fits.infos_fit block.namesSize_lt
    block.names_inside block.names
  have hnames : ¬ (¬ (0 < d.name.length ∧ d.name.length < 64) ∨
      ¬ (0 < d.infos.length ∧ d.infos.length < 4000)) := by
    simp [fits.name_pos, fits.name_lt, fits.infos_pos, fits.infos_lt]
  have hsize : ¬ ¬ (0 < layout.size ∧ layout.size ≤ 1 <<< 22) := by
    have hle := block.size_le
    simpa using ⟨block.size_pos, hle⟩
  have hmagic : SBPr.length = 4 := rfl
  have hheap := block.heap
  rw [hmagic] at hunpacked hdirname
  simp only [List.length_cons, List.length_nil] at hunpacked hdirname
  rw [parseAt]
  simp only [hunpacked, if_neg hnames, if_neg hsize]
  rw [show off + 4 + 24 = off + 4 + 4 + 4 * (0 + 1 + 1 + 1 + 1 + 1) by omega,
    hdirname]
  simp only [fits.name_printable, Bool.not_true, Bool.false_eq_true, if_false]
  rw [show off + 4 + 4 + 4 * (0 + 1 + 1 + 1 + 1 + 1) +
    align4 (d.name.length + 1) = entriesAt d.name off by
      unfold entriesAt; omega]
  rw [if_neg (by unfold heapAt at hheap; omega)]
  unfold heapAt at hentries
  rw [hentries]
  simp [blockOf]

end RiscosBuilder.FileCore
