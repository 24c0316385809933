import RiscosBuilder.FileCore.Recovery

/-!
# Left-over directory blocks

An image that has been written to may hold earlier copies of its directories.
The walk takes the first block with the right name and parent, so it finds the
live tree exactly when every live block comes first among its copies.
-/

namespace RiscosBuilder.FileCore

open RiscosBuilder.Library RiscosBuilder.Library.ByteImage

/-- A live tree, with copies of its directories among the other blocks. -/
structure Aged (m : List UInt8) (tree : Tree) (base : Nat → Nat)
    (layout : Directory → Layout) : Prop extends Live m tree base layout where
  stale : ∀ c, Block m c →
    ∃ d ∈ tree.directories, c.name = d.name ∧ c.parent = d.parent

/-- The entries of a block end in front of the blocks behind it. -/
def Apart (m : List UInt8) : Prop :=
  ∀ a b, Block m a → Block m b → a.block < b.block →
    ∀ e ∈ a.ents, e.entryOff < b.block

/--
The volume lists the live entries, and for a file that lies in a fragment with
a live directory `locate` answers with the live offset or raises.
-/
structure Trusted (v : Volume) (tree : Tree) (base : Nat → Nat) : Prop where
  listed : ∀ q e, (q, e) ∈ tree.entries (place base) → v.paths q = some e
  located : ∀ q e, (q, e) ∈ tree.entries (place base) → e.isdir = false →
    (∃ d ∈ tree.directories, d.addr / 256 = e.ind / 256) →
      ∀ expected off length, v.locate q expected = .ok (off, length) →
        off = place base e.ind

/-- The live blocks are the first of their copies. -/
structure LiveFirst (m : List UInt8) (tree : Tree) (base : Nat → Nat) :
    Prop where
  root : ∀ c, Block m c → looksLikeRoot c = true →
    c.ents.length < tree.root.infos.length ∨
      c.ents.length = tree.root.infos.length ∧
        (place base tree.addr : Int) ≤ c.block
  below : ∀ d ∈ tree.contents.directories tree.addr, ∀ c, Block m c →
    c.parent = d.parent → c.name = d.name →
      (place base d.addr : Int) ≤ c.block

/-! ## Where the listed entries come from -/

/-- The blocks that the walk expands, and the paths it gives them. -/
def Origin (dirs : List Dir) (root c : Dir) (path : Path) : Prop :=
  (c = root ∧ path = ascii "$") ∨
    (kid dirs c.parent c.name = some c ∧ 0x2e ∈ path)

/-- What is on the stack and what is listed comes from such blocks. -/
structure Sourced (dirs : List Dir) (root : Dir) (w : Walk) : Prop where
  stack : ∀ item ∈ w.stack, Origin dirs root item.1 item.2.2
  listed : ∀ q e, w.paths q = some e →
    ∃ c path, Origin dirs root c path ∧ e ∈ c.ents ∧ q = join path e.name

theorem dot_mem_join (path : Path) (name : List UInt8) :
    0x2e ∈ join path name := by
  simp [join]

theorem join_left_cancel {first second : Path} {name : List UInt8}
    (same : join first name = join second name) : first = second :=
  List.append_cancel_right same

theorem Sourced.visit {dirs : List Dir} {root d : Dir} {addr : Nat}
    {path : Path} (origin : Origin dirs root d path) (es : List Entry)
    {w : Walk} (sourced : Sourced dirs root w) (inside : ∀ e ∈ es, e ∈ d.ents) :
    Sourced dirs root (es.foldl (visitEntry dirs addr path) w) := by
  induction es generalizing w with
  | nil => exact sourced
  | cons e es ih =>
      rw [List.foldl_cons]
      refine ih ?_ fun other member => inside other (List.mem_cons_of_mem _ member)
      have hlisted : ∀ q other,
          Function.update w.paths (join path e.name) (some e) q = some other →
          ∃ c p, Origin dirs root c p ∧ other ∈ c.ents ∧
            q = join p other.name := by
        intro q other known
        by_cases same : q = join path e.name
        · subst same
          rw [Function.update_self, Option.some.injEq] at known
          subst known
          exact ⟨d, path, origin, inside e List.mem_cons_self, rfl⟩
        · rw [Function.update_of_ne same] at known
          exact sourced.listed q other known
      unfold visitEntry
      split
      · split
        · exact sourced
        · next c found =>
            refine ⟨?_, hlisted⟩
            intro item member
            rcases List.mem_cons.mp member with rfl | member
            · refine Or.inr ⟨?_, dot_mem_join path e.name⟩
              obtain ⟨-, hparent, hname⟩ := kid_spec found
              rw [hparent, hname, found]
            · exact sourced.stack item member
      · exact ⟨sourced.stack, hlisted⟩

theorem Sourced.turn {dirs : List Dir} {root : Dir} {w next : Walk}
    (sourced : Sourced dirs root w) (turned : walkTurn dirs w = some next) :
    Sourced dirs root next := by
  unfold walkTurn at turned
  split at turned
  · simp at turned
  · next d addr path stack hstack =>
      have hrest : ∀ seen, Sourced dirs root { w with stack, seen } :=
        fun seen => ⟨fun item later => sourced.stack item (by simp [hstack, later]),
          sourced.listed⟩
      have horigin := sourced.stack (d, addr, path) (by simp [hstack])
      split at turned <;>
        (simp only [Option.some.injEq] at turned
         rw [← turned])
      · exact hrest w.seen
      · exact Sourced.visit horigin d.ents (hrest _) fun _ member => member

/-- Every listed entry is one of a block that the walk expanded. -/
theorem walk_sources {dirs : List Dir} {root : Dir} {fuel : Nat} {w : Walk}
    (stops : Loop.run (walkTurn dirs) fuel (walkStart root) = some w) :
    ∀ q e, w.paths q = some e →
      ∃ c path, Origin dirs root c path ∧ e ∈ c.ents ∧
        q = join path e.name := by
  have start : Sourced dirs root (walkStart root) :=
    ⟨by simp [walkStart, Origin], by simp [walkStart]⟩
  exact (Loop.run_invariant (fun _ _ => Sourced.turn) start stops).1.listed

/-! ## The live tree is found exactly when its blocks come first -/

theorem Block.eq_of_block {m : List UInt8} {a b : Dir} (hfirst : Block m a)
    (hsecond : Block m b) (same : a.block = b.block) : a = b := by
  obtain ⟨dirs, -, hblocks, ascending⟩ := scanDirs_total m
  exact Ascending.eq_of_block ascending ((hblocks a).mpr hfirst)
    ((hblocks b).mpr hsecond) same

theorem Block.lt_entryOff {m : List UInt8} {a : Dir} (block : Block m a) :
    ∀ e ∈ a.ents, a.block < e.entryOff := by
  obtain ⟨i, -, hparsed, -⟩ := block
  rcases parseAt_cases m i with hnone | ⟨found, hfound, -, hoff⟩
  · simp [hnone] at hparsed
  · have hsame : found = a := by simpa [hparsed] using hfound.symm
    exact hsame ▸ hoff

/-- An entry belongs to one block only. -/
theorem Apart.eq_of_mem {m : List UInt8} (apart : Apart m) {a b : Dir}
    (hfirst : Block m a) (hsecond : Block m b) {e : Entry}
    (inFirst : e ∈ a.ents) (inSecond : e ∈ b.ents) : a = b := by
  have ha := hfirst.lt_entryOff e inFirst
  have hb := hsecond.lt_entryOff e inSecond
  rcases lt_trichotomy a.block b.block with hlt | same | hlt
  · have hbefore := apart a b hfirst hsecond hlt e inFirst
    omega
  · exact hfirst.eq_of_block hsecond same
  · have hbefore := apart b a hsecond hfirst hlt e inSecond
    omega

namespace Contents

/-- Every directory below holds an object, which is listed under a path with a dot. -/
theorem exists_entry {place : Nat → Nat} {path : Path} {e addr : Nat}
    {contents : Contents} {d : Directory}
    (member : d ∈ contents.directories addr) (nonempty : d.infos ≠ []) :
    ∃ inner entry, (join inner entry.name, entry) ∈
        contents.entries place path e ∧ 0x2e ∈ inner ∧
      entry ∈ (blockOf d (place d.addr)).ents := by
  induction contents generalizing path e addr with
  | nil => simp [directories] at member
  | file info rest ih =>
      obtain ⟨inner, entry, hlisted, hrest⟩ := @ih path (e + ENTRY) addr member
      exact ⟨inner, entry, List.mem_cons_of_mem _ hlisted, hrest⟩
  | dir info children rest ihChildren ihRest =>
      simp only [directories, List.mem_cons, List.mem_append] at member
      simp only [entries, List.mem_cons, List.mem_append]
      rcases member with rfl | member | member
      · cases children with
        | nil => exact absurd rfl nonempty
        | file first others =>
            exact ⟨join path info.name, _,
              Or.inr (Or.inl List.mem_cons_self), dot_mem_join _ _,
              List.mem_cons_self⟩
        | dir first below others =>
            exact ⟨join path info.name, _,
              Or.inr (Or.inl List.mem_cons_self), dot_mem_join _ _,
              List.mem_cons_self⟩
      · obtain ⟨inner, entry, hlisted, hrest⟩ :=
          @ihChildren (join path info.name)
            (entriesAt info.name (place info.ind)) info.ind member
        exact ⟨inner, entry, Or.inr (Or.inl hlisted), hrest⟩
      · obtain ⟨inner, entry, hlisted, hrest⟩ :=
          @ihRest path (e + ENTRY) addr member
        exact ⟨inner, entry, Or.inr (Or.inr hlisted), hrest⟩

end Contents

/-- So does the root, whose objects are listed under its own path. -/
theorem Tree.exists_root_entry {tree : Tree} (base : Nat → Nat)
    (nonempty : 0 < tree.contents.infos.length) :
    ∃ e, (join (ascii "$") e.name, e) ∈ tree.entries (place base) ∧
      e ∈ (liveBlock base tree.root).ents := by
  simp only [Tree.entries, liveBlock, blockOf, Tree.root]
  cases hcontents : tree.contents with
  | nil =>
      rw [hcontents] at nonempty
      exact absurd nonempty (lt_irrefl 0)
  | file info rest => exact ⟨_, List.mem_cons_self, List.mem_cons_self⟩
  | dir info children rest => exact ⟨_, List.mem_cons_self, List.mem_cons_self⟩

namespace Aged

variable {m : List UInt8} {tree : Tree} {base : Nat → Nat}
  {layout : Directory → Layout}

theorem isRoot_iff (aged : Aged m tree base layout) {dirs : List Dir}
    (blocks : ∀ d, d ∈ dirs ↔ Block m d) :
    IsRoot dirs (liveBlock base tree.root) ↔
      ∀ c, Block m c → looksLikeRoot c = true →
        c.ents.length < tree.root.infos.length ∨
          c.ents.length = tree.root.infos.length ∧
            (place base tree.addr : Int) ≤ c.block := by
  have hlength : (liveBlock base tree.root).ents.length =
      tree.root.infos.length := entriesFrom_length _ _
  constructor
  · intro isRoot c block looks
    have hmost := isRoot.most c ((blocks c).mpr block) looks
    rwa [hlength] at hmost
  · intro most
    refine ⟨(blocks _).mpr (aged.block List.mem_cons_self),
      aged.looksLikeRoot_root, ?_⟩
    intro c member looks
    rw [hlength]
    exact most c ((blocks c).mp member) looks

theorem kid_eq_iff (aged : Aged m tree base layout) {dirs : List Dir}
    (blocks : ∀ d, d ∈ dirs ↔ Block m d) (ascending : Ascending dirs)
    {d : Directory} (member : d ∈ tree.contents.directories tree.addr) :
    kid dirs d.parent d.name = some (liveBlock base d) ↔
      ∀ c, Block m c → c.parent = d.parent → c.name = d.name →
        (place base d.addr : Int) ≤ c.block := by
  rw [kid_eq_some_iff ascending]
  constructor
  · rintro ⟨-, -, -, least⟩ c block
    exact least c ((blocks c).mpr block)
  · intro least
    refine ⟨(blocks _).mpr (aged.block (List.mem_cons_of_mem _ member)),
      rfl, rfl, ?_⟩
    intro c hc
    exact least c ((blocks c).mp hc)

theorem trusted_of_liveFirst (aged : Aged m tree base layout)
    (first : LiveFirst m tree base) :
    ∃ v, Volume.load m = .ok v ∧ Trusted v tree base := by
  obtain ⟨dirs, scanned, hblocks, ascending⟩ := scanDirs_total m
  obtain ⟨v, hload, -, hshows⟩ := aged.load_shows scanned
    ((findRoot_eq_some_iff ascending).mpr
      ((aged.isRoot_iff hblocks).mpr first.root))
    (fun d member => (aged.kid_eq_iff hblocks ascending member).mpr
      (first.below d member))
  refine ⟨v, hload, fun q e => (hshows.paths q e).mpr, ?_⟩
  intro q e member file known expected off length located
  rw [Volume.locate, (hshows.paths q e).mpr member] at located
  simp only [file, hshows.offsets, if_pos known, Bool.false_eq_true, if_false,
    Except.ok.injEq, Prod.mk.injEq] at located
  exact located.1.symm

/-- An entry of a live block is listed only where that block was expanded. -/
theorem origin_of_trusted (aged : Aged m tree base layout) (apart : Apart m)
    {v : Volume} (trusted : Trusted v tree base) {dirs : List Dir} {root : Dir}
    {w : Walk} (hblocks : ∀ d, d ∈ dirs ↔ Block m d) (isRoot : root ∈ dirs)
    {fuel : Nat}
    (stops : Loop.run (walkTurn dirs) fuel (walkStart root) = some w)
    (hpaths : v.paths = w.paths) {d : Directory} (member : d ∈ tree.directories)
    {path : Path} {e : Entry}
    (listed : (join path e.name, e) ∈ tree.entries (place base))
    (inside : e ∈ (liveBlock base d).ents) :
    Origin dirs root (liveBlock base d) path := by
  have hlisted := trusted.listed _ e listed
  rw [hpaths] at hlisted
  obtain ⟨c, other, origin, inOther, same⟩ := walk_sources stops _ e hlisted
  have hc : Block m c := by
    rcases origin with ⟨rfl, -⟩ | ⟨found, -⟩
    · exact (hblocks _).mp isRoot
    · exact (hblocks _).mp (kid_spec found).1
  rw [apart.eq_of_mem (aged.block member) hc inside inOther,
    join_left_cancel same]
  exact origin

theorem liveFirst_of_trusted (aged : Aged m tree base layout)
    (apart : Apart m) {v : Volume} (loaded : Volume.load m = .ok v)
    (trusted : Trusted v tree base) : LiveFirst m tree base := by
  obtain ⟨dirs, scanned, hblocks, ascending⟩ := scanDirs_total m
  have hnonempty : m ≠ [] := by
    rintro rfl
    simp [Volume.load] at loaded
  rw [Volume.load, if_neg hnonempty, scanned] at loaded
  rcases findRoot_spec ascending with ⟨hnone, -⟩ | ⟨root, hroot, isRoot⟩
  · simp [hnone] at loaded
  obtain ⟨w, hstops⟩ := walk_stops isRoot.mem
  simp only [hroot, hstops, Except.ok.injEq] at loaded
  have hpaths : v.paths = w.paths := by rw [← loaded]
  constructor
  · rw [← aged.isRoot_iff hblocks]
    obtain ⟨e, hlisted, inside⟩ := Tree.exists_root_entry base
      (aged.valid.fits _ List.mem_cons_self).infos_pos
    rcases aged.origin_of_trusted apart trusted hblocks isRoot.mem hstops hpaths
      List.mem_cons_self hlisted inside with ⟨same, -⟩ | ⟨-, dot⟩
    · rw [same]
      exact isRoot
    · exact absurd dot (by decide)
  · intro d member
    rw [← aged.kid_eq_iff hblocks ascending member]
    have hpos := (aged.valid.fits d (List.mem_cons_of_mem _ member)).infos_pos
    obtain ⟨path, e, hlisted, hdot, inside⟩ :=
      @Contents.exists_entry (place base) (ascii "$")
        (entriesAt (ascii "$") (place base tree.addr)) tree.addr tree.contents
        d member (List.ne_nil_of_length_pos hpos)
    rcases aged.origin_of_trusted apart trusted hblocks isRoot.mem hstops hpaths
      (List.mem_cons_of_mem _ member) hlisted inside with ⟨-, same⟩ | ⟨found, -⟩
    · rw [same] at hdot
      exact absurd hdot (by decide)
    · exact found

end Aged

/--
With left-over copies of its directories in the image, a live tree is found
when each live block is the first of its copies; and, where no block reaches
into another, only then.
-/
theorem stale_blocks {m : List UInt8} {tree : Tree} {base : Nat → Nat}
    {layout : Directory → Layout} (aged : Aged m tree base layout) :
    (LiveFirst m tree base →
        ∃ v, Volume.load m = .ok v ∧ Trusted v tree base) ∧
      (Apart m →
        (∃ v, Volume.load m = .ok v ∧ Trusted v tree base) →
          LiveFirst m tree base) := by
  refine ⟨aged.trusted_of_liveFirst, ?_⟩
  rintro apart ⟨v, loaded, trusted⟩
  exact aged.liveFirst_of_trusted apart loaded trusted

/-- A root with a directory `D` that begins fragment 2 and holds one file. -/
def movedTree : Tree :=
  ⟨256, .file ⟨ascii "!Boot", 0, 0, 3, 771, 3⟩
    (.file ⟨ascii "Apps", 0, 0, 3, 772, 3⟩
      (.dir ⟨ascii "D", 0, 0, 2048, 512, 8⟩
        (.file ⟨ascii "F", 0, 0, 3, 513, 3⟩ .nil) .nil))⟩

/-- Fragment 1 starts the image, and fragment 2 starts with the live `D`. -/
def movedBase (live f : Nat) : Nat :=
  if f = 1 then 0 else SECTOR * live

/-- The root in the first sector, and `D` in the second and in the third. -/
def movedImage : List UInt8 :=
  sectorImage (movedTree.directories.map blockBytes ++
    (movedTree.contents.directories 256).map blockBytes)

theorem movedBase_mod (live f : Nat) : movedBase live f % SECTOR = 0 := by
  unfold movedBase
  split
  · rfl
  · exact Nat.mul_mod_right _ _

/-- A copy behind the live block does no harm. -/
theorem stale_blocks_behind :
    ∃ v, Volume.load movedImage = .ok v ∧
      Trusted v movedTree (movedBase 1) :=
  (@stale_blocks movedImage movedTree (movedBase 1) plainLayout
    ⟨⟨by decide +kernel, movedBase_mod 1, by decide +kernel⟩,
      by decide +kernel⟩).1 ⟨by decide +kernel, by decide +kernel⟩

/--
A copy in front of the live block moves the file: `locate` answers with an
offset that is counted from the copy.
-/
theorem stale_blocks_in_front :
    Aged movedImage movedTree (movedBase 2) plainLayout ∧
      (Volume.load movedImage).map
        (fun v => v.locate (ascii "$.D.F") []) = .ok (.ok (1024, 3)) ∧
      ¬ ∃ v, Volume.load movedImage = .ok v ∧
        Trusted v movedTree (movedBase 2) := by
  have hlocated : (Volume.load movedImage).map
      (fun v => v.locate (ascii "$.D.F") []) = .ok (.ok (1024, 3)) := by
    decide +kernel
  refine ⟨⟨⟨by decide +kernel, movedBase_mod 2, by decide +kernel⟩,
    by decide +kernel⟩, hlocated, ?_⟩
  rintro ⟨v, hload, trusted⟩
  rw [hload] at hlocated
  have hoff := trusted.located (ascii "$.D.F")
    (makeEntry 0 3 513 3 (ascii "F") 1056) (by decide +kernel) rfl
    (by decide +kernel) [] 1024 3 (by simpa [Except.map] using hlocated)
  exact absurd hoff (by decide)

end RiscosBuilder.FileCore
