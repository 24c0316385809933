import RiscosBuilder.FileCore.WalkTree

/-!
# Recovery of a tree

A tree written to an image as directory blocks is recovered exactly, unless a
directory `$` in the root is written behind the root itself: the root is its own
parent and so stands among its own children.
-/

namespace RiscosBuilder.FileCore

open RiscosBuilder.Library RiscosBuilder.Library.ByteImage

/-- Every directory of the tree has its block where its address says. -/
structure Live (m : List UInt8) (tree : Tree) (base : Nat → Nat)
    (layout : Directory → Layout) : Prop where
  valid : tree.Valid
  aligned : ∀ f, base f % SECTOR = 0
  blocks : ∀ d ∈ tree.directories,
    BlockAt m (place base d.addr) d (layout d)

/-- And no other sector-aligned block parses. -/
structure Written (m : List UInt8) (tree : Tree) (base : Nat → Nat)
    (layout : Directory → Layout) : Prop extends Live m tree base layout where
  only : ∀ i ∈ occurrences SBPr 0 m, 4 ≤ i → (i - 4) % SECTOR = 0 →
    parseAt m i ≠ .ok none →
      ∃ d ∈ tree.directories, i = place base d.addr + 4

/-- The volume lists the tree, and knows the places it can be known to know. -/
structure Shows (v : Volume) (tree : Tree) (base : Nat → Nat) : Prop where
  paths : ∀ q e, v.paths q = some e ↔ (q, e) ∈ tree.entries (place base)
  offsets : ∀ e, v.offsetOf e =
    if ∃ d ∈ tree.directories, d.addr / 256 = e.ind / 256
      then some (place base e.ind : Int) else none

/-- The block written for a directory. -/
def liveBlock (base : Nat → Nat) (d : Directory) : Dir :=
  blockOf d (place base d.addr)

theorem place_mod {base : Nat → Nat} (aligned : ∀ f, base f % SECTOR = 0)
    (addr : Nat) : place base addr % SECTOR = 0 := by
  rw [place, Nat.add_mul_mod_self_left, aligned]

theorem BlockAt.magic_mem {m : List UInt8} {off : Nat} {d : Directory}
    {layout : Layout} (block : BlockAt m off d layout) :
    off + 4 ∈ occurrences SBPr 0 m := by
  have hmagic : Holds m (off + 4) SBPr := by
    have hheader := block.header
    rw [headerBytes, List.append_assoc, holds_append] at hheader
    exact hheader.1
  have hlength := hmagic.length_le (by decide)
  rw [show SBPr.length = 4 from rfl] at hlength
  exact mem_occurrences.mpr ⟨Nat.zero_le _, by omega, by rwa [Nat.sub_zero]⟩

namespace Live

variable {m : List UInt8} {tree : Tree} {base : Nat → Nat}
  {layout : Directory → Layout}

theorem block (live : Live m tree base layout) {d : Directory}
    (member : d ∈ tree.directories) : Block m (liveBlock base d) := by
  refine ⟨place base d.addr + 4, (live.blocks d member).magic_mem,
    parseAt_of_blockAt (live.blocks d member) (live.valid.fits d member), ?_⟩
  have hmod := place_mod live.aligned d.addr
  simp only [liveBlock, blockOf]
  omega

theorem looksLikeRoot_root (live : Live m tree base layout) :
    looksLikeRoot (liveBlock base tree.root) = true := by
  have hguesses := live.valid.has_guesses
  simp only [looksLikeRoot, liveBlock, blockOf, entriesFrom_names,
    Bool.and_eq_true, List.contains_iff_mem, List.all_eq_true]
  exact ⟨rfl, hguesses⟩

/-- No two directories below the root have the same parent and name. -/
theorem eq_of_parent_name (live : Live m tree base layout)
    {first second : Directory}
    (hfirst : first ∈ tree.contents.directories tree.addr)
    (hsecond : second ∈ tree.contents.directories tree.addr)
    (sameParent : first.parent = second.parent)
    (sameName : first.name = second.name) : first = second := by
  by_contra apart
  have hpairwise := Contents.directories_pairwise live.valid.addresses_distinct
    (live.valid.names_distinct _ List.mem_cons_self)
    fun d member => live.valid.names_distinct d
      (List.mem_cons_of_mem _ member)
  have hsymm : Std.Symm fun a b : Directory =>
      ¬ (a.parent = b.parent ∧ a.name = b.name) :=
    ⟨fun _ _ hne hsame => hne ⟨hsame.1.symm, hsame.2.symm⟩⟩
  exact hpairwise.forall hfirst hsecond apart ⟨sameParent, sameName⟩

/-- What a volume shows whose scan picks the live blocks. -/
theorem load_shows (live : Live m tree base layout) {dirs : List Dir}
    (scanned : scanDirs m = .ok dirs)
    (isRoot : findRoot dirs = some (liveBlock base tree.root))
    (kids : KidsFound dirs tree base) :
    ∃ v, Volume.load m = .ok v ∧ v.m = m ∧ Shows v tree base := by
  have hmember : liveBlock base tree.root ∈ dirs := by
    obtain ⟨found, hfound, hmem, -⟩ := scanDirs_total m
    rw [scanned, Except.ok.injEq] at hfound
    rw [hfound]
    exact (hmem _).mpr (live.block List.mem_cons_self)
  have hnonempty : m ≠ [] := by
    rintro rfl
    have hempty : scanDirs [] = .ok [] := rfl
    rw [hempty, Except.ok.injEq] at scanned
    rw [← scanned] at hmember
    exact List.not_mem_nil hmember
  obtain ⟨w, hstops⟩ := walk_stops hmember
  obtain ⟨hpaths, hnoted, hbases⟩ := walk_tree live.valid kids hstops
  refine ⟨⟨m, dirs, w.fragBase, w.paths⟩, ?_, rfl, hpaths, fun e => ?_⟩
  · rw [Volume.load, if_neg hnonempty, scanned]
    simp only [isRoot, hstops]
  · have hfrag := hnoted (e.ind / 256)
    simp only [Volume.offsetOf]
    cases hbase : w.fragBase (e.ind / 256) with
    | none =>
        rw [hbase] at hfrag
        rw [if_neg fun known => by simpa using hfrag.mpr known]
        rfl
    | some b =>
        rw [hbase] at hfrag
        rw [if_pos (hfrag.mp rfl), hbases _ _ hbase, Option.map_some]
        simp [place]

end Live

namespace Written

variable {m : List UInt8} {tree : Tree} {base : Nat → Nat}
  {layout : Directory → Layout}

/-- The blocks of the image are the ones written. -/
theorem block_iff (written : Written m tree base layout) {c : Dir} :
    Block m c ↔ ∃ d ∈ tree.directories, c = liveBlock base d := by
  constructor
  · rintro ⟨i, hi, hparsed, haligned⟩
    rcases parseAt_cases m i with hnone | ⟨found, hfound, hblock, -⟩
    · simp [hnone] at hparsed
    · have hsame : found = c := by simpa [hparsed] using hfound.symm
      rw [hsame] at hblock
      rw [hblock] at haligned
      have hlow : 4 ≤ i := by
        by_contra hlt
        simp only [SECTOR] at haligned
        omega
      obtain ⟨d, hd, rfl⟩ := written.only i hi hlow
        (by simp only [SECTOR] at haligned ⊢; omega) (by simp [hparsed])
      refine ⟨d, hd, ?_⟩
      rw [parseAt_of_blockAt (written.blocks d hd)
        (written.valid.fits d hd)] at hparsed
      simpa [liveBlock] using hparsed.symm
  · rintro ⟨d, member, rfl⟩
    exact written.block member

theorem isRoot (written : Written m tree base layout) {dirs : List Dir}
    (blocks : ∀ d, d ∈ dirs ↔ Block m d) :
    IsRoot dirs (liveBlock base tree.root) where
  mem := (blocks _).mpr (written.block List.mem_cons_self)
  looks := written.looksLikeRoot_root
  most c member looks := by
    obtain ⟨d, hd, rfl⟩ := written.block_iff.mp ((blocks c).mp member)
    rcases List.mem_cons.mp hd with rfl | hd
    · exact Or.inr ⟨rfl, le_refl _⟩
    · simp only [looksLikeRoot, liveBlock, blockOf, entriesFrom_names,
        Bool.and_eq_true, List.contains_iff_mem, List.all_eq_true] at looks
      obtain ⟨name, hguess, habsent⟩ :=
        written.valid.single_root d hd (of_decide_eq_true looks.1)
      exact absurd (looks.2 name hguess) habsent

theorem kidsFound (written : Written m tree base layout)
    (rootLast : ∀ d ∈ tree.contents.directories tree.addr,
      d.parent = tree.addr → d.name = ascii "$" →
        place base d.addr < place base tree.addr)
    {dirs : List Dir} (blocks : ∀ d, d ∈ dirs ↔ Block m d)
    (ascending : Ascending dirs) : KidsFound dirs tree base := by
  intro d member
  rw [kid_eq_some_iff ascending]
  refine ⟨(blocks _).mpr (written.block (List.mem_cons_of_mem _ member)),
    rfl, rfl, ?_⟩
  intro c hc sameParent sameName
  obtain ⟨other, hother, rfl⟩ := written.block_iff.mp ((blocks c).mp hc)
  simp only [liveBlock, blockOf] at sameParent sameName ⊢
  rcases List.mem_cons.mp hother with rfl | hother
  · have hlt := rootLast d member sameParent.symm sameName.symm
    simp only [Tree.root]
    omega
  · rw [written.eq_of_parent_name hother member sameParent sameName]

end Written

/--
A volume shows the tree that is written to its image, when a directory `$` in
the root is written in front of the root.
-/
theorem volume_recovers {m : List UInt8} {tree : Tree} {base : Nat → Nat}
    {layout : Directory → Layout} (written : Written m tree base layout)
    (rootLast : ∀ d ∈ tree.contents.directories tree.addr,
      d.parent = tree.addr → d.name = ascii "$" →
        place base d.addr < place base tree.addr) :
    ∃ v, Volume.load m = .ok v ∧ Shows v tree base := by
  obtain ⟨dirs, scanned, hblocks, ascending⟩ := scanDirs_total m
  obtain ⟨v, hload, -, hshows⟩ := written.load_shows scanned
    ((findRoot_eq_some_iff ascending).mpr (written.isRoot hblocks))
    (written.kidsFound rootLast hblocks ascending)
  exact ⟨v, hload, hshows⟩

/-- A root that holds two files and a directory of the given name. -/
def smallTree (name : List UInt8) : Tree :=
  ⟨256, .file ⟨ascii "!Boot", 0, 0, 3, 515, 3⟩
    (.file ⟨ascii "Apps", 0, 0, 3, 516, 3⟩
      (.dir ⟨name, 0, 0, 2048, 258, 8⟩
        (.file ⟨ascii "F", 0, 0, 3, 513, 3⟩ .nil) .nil))⟩

/-- Fragment 1 starts the image, and the others lie behind it. -/
def smallBase (f : Nat) : Nat :=
  if f = 1 then 0 else 2048

/-- The tree written out. -/
def smallImage (name : List UInt8) : List UInt8 :=
  sectorImage ((smallTree name).directories.flatMap fun d =>
    [blockBytes d, []])

theorem smallBase_mod (f : Nat) : smallBase f % SECTOR = 0 := by
  unfold smallBase
  split <;> rfl

theorem volume_recovers_small :
    ∃ v, Volume.load (smallImage (ascii "D")) = .ok v ∧
      Shows v (smallTree (ascii "D")) smallBase :=
  @volume_recovers (smallImage (ascii "D")) (smallTree (ascii "D")) smallBase
    plainLayout ⟨⟨by decide +kernel, smallBase_mod, by decide +kernel⟩,
      by decide +kernel⟩ (by decide +kernel)

/--
A directory `$` in the root, written behind the root, is taken for the root, and
the file in it is not found.
-/
theorem volume_recovers_not_dollar :
    Written (smallImage (ascii "$")) (smallTree (ascii "$")) smallBase
        plainLayout ∧
      ¬ ∃ v, Volume.load (smallImage (ascii "$")) = .ok v ∧
        Shows v (smallTree (ascii "$")) smallBase := by
  refine ⟨⟨⟨by decide +kernel, smallBase_mod, by decide +kernel⟩,
    by decide +kernel⟩, ?_⟩
  rintro ⟨v, hload, hshows⟩
  have hmissing : (Volume.load (smallImage (ascii "$"))).map
      (fun v => v.paths (ascii "$.$.F")) = .ok none := by
    decide +kernel
  have hlisted := (hshows.paths (ascii "$.$.F")
    (makeEntry 0 3 513 3 (ascii "F") 1056)).mpr (by decide +kernel)
  rw [hload] at hmissing
  simp [Except.map, hlisted] at hmissing

end RiscosBuilder.FileCore
