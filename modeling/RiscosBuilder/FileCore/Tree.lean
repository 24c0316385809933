import RiscosBuilder.FileCore.BlockFormat
import RiscosBuilder.FileCore.Volume
import Mathlib.Data.List.Nodup
import Mathlib.Data.List.Pairwise

/-!
# Directory trees

What a volume is meant to hold: a tree of files and directories, the full path
of every object in it, and the directory blocks it is written as.  Distinct
sibling names make paths distinct, and distinct addresses make a directory the
only one with its parent and its name.
-/

namespace RiscosBuilder.FileCore

open RiscosBuilder.Library RiscosBuilder.Library.ByteImage

/-- What a directory holds, in the order of its entries. -/
inductive Contents where
  | nil
  | file (info : Info) (rest : Contents)
  | dir (info : Info) (children rest : Contents)
  deriving DecidableEq, Repr

namespace Contents

/-- The objects directly in the directory. -/
def infos : Contents → List Info
  | nil => []
  | file info rest => info :: rest.infos
  | dir info _ rest => info :: rest.infos

/-- The directories below, for a directory at `addr`. -/
def directories (addr : Nat) : Contents → List Directory
  | nil => []
  | file _ rest => rest.directories addr
  | dir info children rest =>
      ⟨info.name, info.ind, addr, children.infos⟩ ::
        (children.directories info.ind ++ rest.directories addr)

/-- The addresses of all the objects below. -/
def addresses : Contents → List Nat
  | nil => []
  | file info rest => info.ind :: rest.addresses
  | dir info children rest =>
      info.ind :: (children.addresses ++ rest.addresses)

/-- Bit 3 of the attributes tells the directories from the files. -/
def KindsAgree : Contents → Prop
  | nil => True
  | file info rest => info.attr.testBit 3 = false ∧ rest.KindsAgree
  | dir info children rest =>
      info.attr.testBit 3 = true ∧ children.KindsAgree ∧ rest.KindsAgree

instance decidableKindsAgree : (contents : Contents) →
    Decidable contents.KindsAgree
  | nil => isTrue trivial
  | file _ rest =>
      have := decidableKindsAgree rest
      inferInstanceAs (Decidable (_ ∧ _))
  | dir _ children rest =>
      have := decidableKindsAgree children
      have := decidableKindsAgree rest
      inferInstanceAs (Decidable (_ ∧ _ ∧ _))

/--
All the objects below with their full paths, as entries read from blocks that
stand at `place` of their address; `e` is where the entries of this directory
start.
-/
def entries (place : Nat → Nat) (path : Path) (e : Nat) :
    Contents → List (Path × Entry)
  | nil => []
  | file info rest =>
      (join path info.name,
        makeEntry info.load info.length info.ind info.attr info.name e) ::
        rest.entries place path (e + ENTRY)
  | dir info children rest =>
      (join path info.name,
        makeEntry info.load info.length info.ind info.attr info.name e) ::
        (children.entries place (join path info.name)
            (entriesAt info.name (place info.ind)) ++
          rest.entries place path (e + ENTRY))

end Contents

/-- A whole tree: the root's address, and what the root holds. -/
structure Tree where
  addr : Nat
  contents : Contents
  deriving DecidableEq, Repr

namespace Tree

/-- The root directory, which is its own parent. -/
def root (tree : Tree) : Directory :=
  ⟨ascii "$", tree.addr, tree.addr, tree.contents.infos⟩

/-- All the directories of the tree. -/
def directories (tree : Tree) : List Directory :=
  tree.root :: tree.contents.directories tree.addr

/-- All the objects of the tree, by full path. -/
def entries (tree : Tree) (place : Nat → Nat) : List (Path × Entry) :=
  tree.contents.entries place (ascii "$")
    (entriesAt (ascii "$") (place tree.addr))

/-- The tree can be written to a volume. -/
@[mk_iff]
structure Valid (tree : Tree) : Prop where
  fits : ∀ d ∈ tree.directories, d.Fits
  names_distinct : ∀ d ∈ tree.directories, (d.infos.map Info.name).Nodup
  no_dot : ∀ d ∈ tree.directories, ∀ info ∈ d.infos, 0x2e ∉ info.name
  kinds : tree.contents.KindsAgree
  addresses_distinct : (tree.addr :: tree.contents.addresses).Nodup
  has_guesses : ∀ name ∈ ROOT_GUESS_ENTRIES,
    name ∈ tree.root.infos.map Info.name
  single_root : ∀ d ∈ tree.contents.directories tree.addr,
    d.name = ascii "$" →
      ∃ name ∈ ROOT_GUESS_ENTRIES, name ∉ d.infos.map Info.name

instance (tree : Tree) : Decidable tree.Valid :=
  decidable_of_iff _ (valid_iff tree).symm

end Tree

/-! ## A directory is known by its parent and its name -/

namespace Contents

theorem parent_mem {addr : Nat} {contents : Contents} {d : Directory}
    (member : d ∈ contents.directories addr) :
    d.parent = addr ∨ d.parent ∈ contents.addresses := by
  induction contents generalizing addr with
  | nil => simp [directories] at member
  | file info rest ih =>
      exact (ih member).imp_right (List.mem_cons_of_mem _)
  | dir info children rest ihChildren ihRest =>
      simp only [directories, List.mem_cons, List.mem_append] at member
      simp only [addresses, List.mem_cons, List.mem_append]
      rcases member with rfl | member | member
      · exact Or.inl rfl
      · rcases ihChildren member with here | below
        · exact Or.inr (Or.inl here)
        · exact Or.inr (Or.inr (Or.inl below))
      · exact (ihRest member).imp_right fun below => Or.inr (Or.inr below)

/-- A directory whose parent is the given one is listed in it. -/
theorem name_mem_infos {addr : Nat} {contents : Contents} {d : Directory}
    (member : d ∈ contents.directories addr) (here : d.parent = addr)
    (fresh : addr ∉ contents.addresses) :
    d.name ∈ contents.infos.map Info.name := by
  induction contents with
  | nil => simp [directories] at member
  | file info rest ih =>
      simp only [addresses, List.mem_cons, not_or] at fresh
      exact List.mem_cons_of_mem _ (ih member fresh.2)
  | dir info children rest _ ihRest =>
      simp only [addresses, List.mem_cons, List.mem_append, not_or] at fresh
      simp only [directories, List.mem_cons, List.mem_append] at member
      simp only [infos, List.map_cons, List.mem_cons]
      rcases member with rfl | member | member
      · exact Or.inl rfl
      · rcases parent_mem member with same | below
        · exact absurd (here.symm.trans same) fresh.1
        · exact absurd (here ▸ below) fresh.2.1
      · exact Or.inr (ihRest member fresh.2.2)

/-- No two directories below have the same parent and the same name. -/
theorem directories_pairwise {addr : Nat} {contents : Contents}
    (distinct : (addr :: contents.addresses).Nodup)
    (siblings : (contents.infos.map Info.name).Nodup)
    (below : ∀ d ∈ contents.directories addr,
      (d.infos.map Info.name).Nodup) :
    (contents.directories addr).Pairwise fun first second =>
      ¬ (first.parent = second.parent ∧ first.name = second.name) := by
  induction contents generalizing addr with
  | nil => exact List.Pairwise.nil
  | file info rest ih =>
      simp only [addresses, infos, List.map_cons, List.nodup_cons,
        List.mem_cons, not_or] at distinct siblings
      exact ih (List.nodup_cons.mpr ⟨distinct.1.2, distinct.2.2⟩) siblings.2
        below
  | dir info children rest ihChildren ihRest =>
      simp only [addresses, infos, List.map_cons, List.nodup_cons,
        List.nodup_append, List.mem_cons, List.mem_append, not_or]
          at distinct siblings
      obtain ⟨⟨hself, haddrChildren, haddrRest⟩,
        ⟨hindChildren, hindRest⟩, hchildren, hrest, hapart⟩ := distinct
      simp only [directories, List.mem_cons, List.mem_append] at below
      have hnested := @ihChildren info.ind
        (List.nodup_cons.mpr ⟨hindChildren, hchildren⟩)
        (below _ (Or.inl rfl))
        fun d member => below d (Or.inr (Or.inl member))
      have hlater := @ihRest addr
        (List.nodup_cons.mpr ⟨haddrRest, hrest⟩) siblings.2
        fun d member => below d (Or.inr (Or.inr member))
      rw [directories, List.pairwise_cons, List.pairwise_append]
      refine ⟨?_, hnested, hlater, ?_⟩
      · rintro d member ⟨hparent, hname⟩
        rw [List.mem_append] at member
        simp only at hparent hname
        rcases member with member | member
        · rcases parent_mem member with same | nested
          · exact hself (hparent.trans same)
          · exact haddrChildren (hparent ▸ nested)
        · exact siblings.1 (hname ▸
            name_mem_infos member hparent.symm haddrRest)
      · rintro first hfirst second hsecond ⟨hparent, -⟩
        rcases parent_mem hfirst with same | nested <;>
          rcases parent_mem hsecond with same' | later
        · exact hself ((same'.symm.trans hparent.symm).trans same)
        · exact hindRest (same ▸ hparent ▸ later)
        · exact haddrChildren (same' ▸ hparent ▸ nested)
        · exact hapart _ nested _ (hparent ▸ later) rfl

end Contents

/-! ## Paths are distinct -/

/-- A path that begins with the object `name` of the directory at `path`. -/
def Through (path : Path) (name : List UInt8) (full : Path) : Prop :=
  ∃ tail, full = join path name ++ tail ∧ (tail = [] ∨ tail.head? = some 0x2e)

theorem Through.refl (path : Path) (name : List UInt8) :
    Through path name (join path name) :=
  ⟨[], by simp, Or.inl rfl⟩

theorem Through.below {path : Path} {name inner : List UInt8} {full : Path}
    (through : Through (join path name) inner full) :
    Through path name full ∧ full ≠ join path name := by
  obtain ⟨tail, rfl, -⟩ := through
  refine ⟨⟨0x2e :: inner ++ tail, by simp [join], Or.inr rfl⟩, ?_⟩
  intro same
  have hlength := congrArg List.length same
  simp [join] at hlength

/-- The first name on a path is determined, as names have no dot in them. -/
theorem Through.name_unique {path : Path} {first second : List UInt8}
    {full : Path} (one : Through path first full)
    (other : Through path second full) (hfirst : 0x2e ∉ first)
    (hsecond : 0x2e ∉ second) : first = second := by
  have hname : ∀ {name tail : List UInt8}, 0x2e ∉ name →
      (tail = [] ∨ tail.head? = some 0x2e) →
      (name ++ tail).takeWhile (· != 0x2e) = name := by
    intro name tail hdot htail
    have hall : ∀ byte ∈ name, (byte != 0x2e) = true := fun byte member => by
      simpa using fun same : byte = 0x2e => hdot (same ▸ member)
    rw [List.takeWhile_append_of_pos hall]
    rcases htail with rfl | hhead
    · simp
    · cases tail with
      | nil => simp at hhead
      | cons byte tail =>
          simp only [List.head?_cons, Option.some.injEq] at hhead
          simp [hhead]
  obtain ⟨tail, hfull, htail⟩ := one
  obtain ⟨tail', hfull', htail'⟩ := other
  have hsame : first ++ tail = second ++ tail' := by
    have hjoin := hfull.symm.trans hfull'
    simpa [join] using hjoin
  rw [← hname hfirst htail, hsame, hname hsecond htail']

namespace Contents

theorem entries_through {place : Nat → Nat} {path : Path} {e : Nat}
    {contents : Contents} {object : Path × Entry}
    (member : object ∈ contents.entries place path e) :
    ∃ info ∈ contents.infos, Through path info.name object.1 := by
  induction contents generalizing path e with
  | nil => simp [entries] at member
  | file info rest ih =>
      rw [entries, List.mem_cons] at member
      rcases member with rfl | member
      · exact ⟨info, List.mem_cons_self, Through.refl _ _⟩
      · obtain ⟨other, hother, through⟩ := ih member
        exact ⟨other, List.mem_cons_of_mem _ hother, through⟩
  | dir info children rest ihChildren ihRest =>
      rw [entries, List.mem_cons, List.mem_append] at member
      rcases member with rfl | member | member
      · exact ⟨info, List.mem_cons_self, Through.refl _ _⟩
      · obtain ⟨inner, -, through⟩ := ihChildren member
        exact ⟨info, List.mem_cons_self, through.below.1⟩
      · obtain ⟨other, hother, through⟩ := ihRest member
        exact ⟨other, List.mem_cons_of_mem _ hother, through⟩

/-- No two objects below have the same path. -/
theorem entries_nodup {place : Nat → Nat} {path : Path} {e addr : Nat}
    {contents : Contents}
    (siblings : (contents.infos.map Info.name).Nodup)
    (noDot : ∀ info ∈ contents.infos, 0x2e ∉ info.name)
    (below : ∀ d ∈ contents.directories addr,
      (d.infos.map Info.name).Nodup ∧ ∀ info ∈ d.infos, 0x2e ∉ info.name) :
    ((contents.entries place path e).map Prod.fst).Nodup := by
  induction contents generalizing path e addr with
  | nil => exact List.nodup_nil
  | file info rest ih =>
      simp only [infos, List.map_cons, List.nodup_cons, List.mem_cons]
        at siblings noDot
      rw [entries, List.map_cons, List.nodup_cons]
      refine ⟨?_, ih siblings.2 (fun other h => noDot other (Or.inr h)) below⟩
      intro member
      obtain ⟨object, hobject, hpath⟩ := List.mem_map.mp member
      obtain ⟨other, hother, through⟩ := entries_through hobject
      have hname := (hpath ▸ through).name_unique (Through.refl path info.name)
        (noDot other (Or.inr hother)) (noDot info (Or.inl rfl))
      exact siblings.1 (hname ▸ List.mem_map_of_mem hother)
  | dir info children rest ihChildren ihRest =>
      simp only [infos, List.map_cons, List.nodup_cons, List.mem_cons]
        at siblings noDot
      simp only [directories, List.mem_cons, List.mem_append] at below
      have hself := below _ (Or.inl rfl)
      have hrest : ∀ {full : Path}, Through path info.name full →
          full ∉ (rest.entries place path (e + ENTRY)).map Prod.fst := by
        intro full hthrough member
        obtain ⟨object, hobject, hpath⟩ := List.mem_map.mp member
        obtain ⟨other, hother, through⟩ := entries_through hobject
        have hname := (hpath ▸ through).name_unique hthrough
          (noDot other (Or.inr hother)) (noDot info (Or.inl rfl))
        exact siblings.1 (hname ▸ List.mem_map_of_mem hother)
      rw [entries, List.map_cons, List.map_append, List.nodup_cons,
        List.nodup_append]
      refine ⟨?_, ihChildren hself.1 hself.2
          (fun d member => below d (Or.inr (Or.inl member))),
        ihRest siblings.2 (fun other h => noDot other (Or.inr h))
          (fun d member => below d (Or.inr (Or.inr member))), ?_⟩
      · rw [List.mem_append]
        rintro (member | member)
        · obtain ⟨object, hobject, hpath⟩ := List.mem_map.mp member
          obtain ⟨inner, -, through⟩ := entries_through hobject
          exact through.below.2 hpath
        · exact hrest (Through.refl _ _) member
      · rintro full hfull other hother rfl
        obtain ⟨object, hobject, hpath⟩ := List.mem_map.mp hfull
        obtain ⟨inner, -, through⟩ := entries_through hobject
        exact hrest (hpath ▸ through.below.1) hother

end Contents

theorem Tree.Valid.entries_nodup {tree : Tree} (valid : tree.Valid)
    (place : Nat → Nat) : ((tree.entries place).map Prod.fst).Nodup :=
  @Contents.entries_nodup place _ _ tree.addr _
    (valid.names_distinct _ List.mem_cons_self)
    (valid.no_dot _ List.mem_cons_self)
    fun d member => ⟨valid.names_distinct d (List.mem_cons_of_mem _ member),
      valid.no_dot d (List.mem_cons_of_mem _ member)⟩

end RiscosBuilder.FileCore
