import RiscosBuilder.FileCore.Scan
import RiscosBuilder.FileCore.Tree

/-!
# The walk over a tree

When the block that is picked for every directory of a tree is the one that was
written for it, the walk lists the objects of the tree and calibrates the
fragments that hold a directory, and nothing else.
-/

namespace RiscosBuilder.FileCore

open RiscosBuilder.Library RiscosBuilder.Library.ByteImage

/-- Where the object at an address lies, for fragments at the given bases. -/
def place (base : Nat → Nat) (addr : Nat) : Nat :=
  base (addr / 256) + SECTOR * (addr % 256)

/-- A directory of the tree, or what is left of it, that is still to be visited. -/
structure Pending where
  path : Path
  addr : Nat
  start : Nat
  contents : Contents

namespace Pending

def entries (base : Nat → Nat) (p : Pending) : List (Path × Entry) :=
  p.contents.entries (place base) p.path p.start

def directories (p : Pending) : List Directory :=
  p.contents.directories p.addr

def addresses (p : Pending) : List Nat :=
  p.addr :: p.contents.addresses

/-- An item of the stack stands for a directory that is still to be visited. -/
def Stacked (item : Dir × Nat × Path) (p : Pending) : Prop :=
  item.1.ents = entriesFrom p.contents.infos p.start ∧
    item.2.1 = p.addr ∧ item.2.2 = p.path

end Pending

/--
What the walk has found and what it has still to visit are the tree: its
objects, and the fragments that hold a directory.
-/
structure Walked (tree : Tree) (base : Nat → Nat)
    (fragBase : Nat → Option Int) (paths : Path → Option Entry)
    (pend : List Pending) : Prop where
  listed : ∀ q e,
    (paths q = some e ∨ (q, e) ∈ pend.flatMap (Pending.entries base)) ↔
      (q, e) ∈ tree.entries (place base)
  noted : ∀ f,
    ((fragBase f).isSome ∨
        ∃ d ∈ pend.flatMap Pending.directories, d.addr / 256 = f) ↔
      ∃ d ∈ tree.directories, d.addr / 256 = f
  bases : ∀ f b, fragBase f = some b → b = base f
  below : ∀ d ∈ pend.flatMap Pending.directories,
    d ∈ tree.contents.directories tree.addr
  kinds : ∀ p ∈ pend, p.contents.KindsAgree

/-- The base that a directory block gives its fragment is the fragment's. -/
theorem note_place {base : Nat → Nat} {fragBase : Nat → Option Int}
    (bases : ∀ f b, fragBase f = some b → b = base f) (addr : Nat) :
    (∀ f b, note fragBase addr (place base addr) f = some b → b = base f) ∧
      ∀ f, (note fragBase addr (place base addr) f).isSome ↔
        (fragBase f).isSome ∨ addr / 256 = f := by
  cases hbase : fragBase (addr / 256) with
  | some known =>
      have hnote : note fragBase addr (place base addr) = fragBase := by
        rw [note, hbase]
      rw [hnote]
      refine ⟨bases, fun f => ⟨Or.inl, ?_⟩⟩
      rintro (already | rfl)
      · exact already
      · simp [hbase]
  | none =>
      have hnote : note fragBase addr (place base addr) =
          Function.update fragBase (addr / 256)
            (some (place base addr - (SECTOR * (addr % 256) : Nat))) := by
        rw [note, hbase]
      rw [hnote]
      refine ⟨fun f b => ?_, fun f => ?_⟩
      · by_cases same : f = addr / 256
        · subst same
          rw [Function.update_self, Option.some.injEq]
          rintro rfl
          simp only [place]
          omega
        · rw [Function.update_of_ne same]
          exact bases f b
      · by_cases same : f = addr / 256
        · subst same
          simp
        · rw [Function.update_of_ne same]
          exact ⟨Or.inl, fun either => either.resolve_right (Ne.symm same)⟩

/-- Listing one more object of a set that names each path once. -/
theorem update_eq_some_iff {objects : List (Path × Entry)}
    (distinct : (objects.map Prod.fst).Nodup) {paths : Path → Option Entry}
    (sound : ∀ q e, paths q = some e → (q, e) ∈ objects) {path : Path}
    {entry : Entry} (member : (path, entry) ∈ objects) (q : Path) (e : Entry) :
    Function.update paths path (some entry) q = some e ↔
      paths q = some e ∨ (q, e) = (path, entry) := by
  by_cases same : q = path
  · subst same
    rw [Function.update_self, Option.some.injEq]
    constructor
    · rintro rfl
      exact Or.inr rfl
    · rintro (before | now)
      · have hpair := List.inj_on_of_nodup_map distinct member
          (sound q e before) rfl
        exact (Prod.mk.inj hpair).2
      · exact (Prod.mk.inj now).2.symm
  · rw [Function.update_of_ne same]
    refine ⟨Or.inl, fun either => either.resolve_right fun now => ?_⟩
    exact same (Prod.mk.inj now).1

namespace Walked

variable {tree : Tree} {base : Nat → Nat} {fragBase : Nat → Option Int}
  {paths : Path → Option Entry} {path : Path} {addr start : Nat} {info : Info}
  {children rest : Contents} {pend : List Pending}

/-- A file is visited. -/
theorem file (valid : tree.Valid)
    (walked : Walked tree base fragBase paths
      (⟨path, addr, start, .file info rest⟩ :: pend)) :
    Walked tree base fragBase
      (Function.update paths (join path info.name)
        (some (makeEntry info.load info.length info.ind info.attr info.name
          start)))
      (⟨path, addr, start + ENTRY, rest⟩ :: pend) where
  listed q e := by
    rw [← walked.listed]
    have hobject := (walked.listed (join path info.name) _).mp
      (Or.inr (List.mem_append_left _ List.mem_cons_self))
    rw [update_eq_some_iff (valid.entries_nodup (place base))
      (fun q e known => (walked.listed q e).mp (Or.inl known)) hobject]
    simp only [List.flatMap_cons, Pending.entries, Contents.entries,
      List.cons_append, List.mem_cons, or_assoc]
  noted := walked.noted
  bases := walked.bases
  below := walked.below
  kinds p member := by
    rcases List.mem_cons.mp member with rfl | member
    · exact (walked.kinds _ List.mem_cons_self).2
    · exact walked.kinds p (List.mem_cons_of_mem _ member)

/-- A directory is visited. -/
theorem dir (valid : tree.Valid)
    (walked : Walked tree base fragBase paths
      (⟨path, addr, start, .dir info children rest⟩ :: pend)) :
    Walked tree base (note fragBase info.ind (place base info.ind))
      (Function.update paths (join path info.name)
        (some (makeEntry info.load info.length info.ind info.attr info.name
          start)))
      (⟨path, addr, start + ENTRY, rest⟩ ::
        ⟨join path info.name, info.ind,
          entriesAt info.name (place base info.ind), children⟩ :: pend) where
  listed q e := by
    rw [← walked.listed]
    have hobject := (walked.listed (join path info.name) _).mp
      (Or.inr (List.mem_append_left _ List.mem_cons_self))
    rw [update_eq_some_iff (valid.entries_nodup (place base))
      (fun q e known => (walked.listed q e).mp (Or.inl known)) hobject]
    simp only [List.flatMap_cons, Pending.entries, Contents.entries,
      List.cons_append, List.mem_cons, List.mem_append, or_assoc]
    exact or_congr_right (or_congr_right or_left_comm)
  noted f := by
    rw [← walked.noted, (note_place walked.bases info.ind).2]
    simp only [List.flatMap_cons, Pending.directories, Contents.directories,
      List.cons_append, List.mem_cons, List.mem_append, exists_eq_or_imp,
      or_assoc]
    refine or_congr_right (or_congr_right (exists_congr fun d => ?_))
    rw [or_left_comm]
  bases := (note_place walked.bases info.ind).1
  below d member := by
    apply walked.below
    simp only [List.flatMap_cons, Pending.directories, Contents.directories,
      List.cons_append, List.mem_cons, List.mem_append] at member ⊢
    exact Or.inr (by rwa [or_assoc, or_left_comm])
  kinds p member := by
    obtain ⟨-, hchildren, hrest⟩ := walked.kinds _ List.mem_cons_self
    rcases List.mem_cons.mp member with rfl | member
    · exact hrest
    · rcases List.mem_cons.mp member with rfl | member
      · exact hchildren
      · exact walked.kinds p (List.mem_cons_of_mem _ member)

/-- A directory that has been visited to its end is done. -/
theorem finished
    (walked : Walked tree base fragBase paths
      (⟨path, addr, start, .nil⟩ :: pend)) :
    Walked tree base fragBase paths pend where
  listed := walked.listed
  noted := walked.noted
  bases := walked.bases
  below := walked.below
  kinds p member := walked.kinds p (List.mem_cons_of_mem _ member)

end Walked

/-- The block picked for every directory of the tree is the one written for it. -/
def KidsFound (dirs : List Dir) (tree : Tree) (base : Nat → Nat) : Prop :=
  ∀ d ∈ tree.contents.directories tree.addr,
    kid dirs d.parent d.name = some (blockOf d (place base d.addr))

/-- The walk at work: `current` is being visited, `pend` is on the stack. -/
structure Standing (tree : Tree) (base : Nat → Nat)
    (current pend : List Pending) (w : Walk) : Prop where
  walked : Walked tree base w.fragBase w.paths (current ++ pend)
  stacked : List.Forall₂ Pending.Stacked w.stack pend
  fresh : ((current.flatMap fun p => p.contents.addresses) ++
    (pend.flatMap Pending.addresses ++ w.seen)).Nodup

/-- Visiting the entries of a directory. -/
theorem Standing.visit {tree : Tree} {base : Nat → Nat} {dirs : List Dir}
    (valid : tree.Valid) (kids : KidsFound dirs tree base) {path : Path}
    {addr : Nat} (contents : Contents) {start : Nat} {pend : List Pending}
    {w : Walk}
    (standing : Standing tree base [⟨path, addr, start, contents⟩] pend w) :
    ∃ later, Standing tree base [] later
      ((entriesFrom contents.infos start).foldl (visitEntry dirs addr path)
        w) := by
  induction contents generalizing start pend w with
  | nil =>
      refine ⟨pend, standing.walked.finished, standing.stacked, ?_⟩
      simpa [Contents.addresses, Contents.infos, entriesFrom] using
        standing.fresh
  | file info rest ih =>
      have hkind := (standing.walked.kinds _ List.mem_cons_self).1
      rw [Contents.infos, entriesFrom, List.foldl_cons]
      apply ih
      have hvisit : visitEntry dirs addr path w
          (makeEntry info.load info.length info.ind info.attr info.name
            start) =
          { w with
            paths := Function.update w.paths (join path info.name)
              (some (makeEntry info.load info.length info.ind info.attr
                info.name start)) } := by
        simp [visitEntry, makeEntry, hkind]
      rw [hvisit]
      refine ⟨standing.walked.file valid, standing.stacked, ?_⟩
      have hfresh := standing.fresh
      simp only [List.flatMap_cons, List.flatMap_nil, List.append_nil,
        Contents.addresses, List.cons_append, List.nodup_cons] at hfresh ⊢
      exact hfresh.2
  | dir info children rest ihChildren ihRest =>
      have hkind := (standing.walked.kinds _ List.mem_cons_self).1
      have hkid := kids ⟨info.name, info.ind, addr, children.infos⟩
        (standing.walked.below _
          (List.mem_append_left _ List.mem_cons_self))
      rw [Contents.infos, entriesFrom, List.foldl_cons]
      apply @ihRest (start + ENTRY) (⟨join path info.name, info.ind,
        entriesAt info.name (place base info.ind), children⟩ :: pend)
      have hvisit : visitEntry dirs addr path w
          (makeEntry info.load info.length info.ind info.attr info.name
            start) =
          { w with
            fragBase := note w.fragBase info.ind (place base info.ind)
            paths := Function.update w.paths (join path info.name)
              (some (makeEntry info.load info.length info.ind info.attr
                info.name start))
            stack := (blockOf ⟨info.name, info.ind, addr, children.infos⟩
              (place base info.ind), info.ind, join path info.name) ::
                w.stack } := by
        simp only at hkid
        simp [visitEntry, makeEntry, hkind, hkid, blockOf]
      rw [hvisit]
      refine ⟨standing.walked.dir valid,
        List.Forall₂.cons ⟨rfl, rfl, rfl⟩ standing.stacked, ?_⟩
      have hfresh := standing.fresh
      rw [List.nodup_iff_count_le_one] at hfresh ⊢
      intro a
      have hcount := hfresh a
      simp only [List.flatMap_cons, List.flatMap_nil, List.append_nil,
        Contents.addresses, Pending.addresses, List.cons_append,
        List.count_append, List.count_cons] at hcount ⊢
      omega

/-- One turn of the walk. -/
theorem Standing.turn {tree : Tree} {base : Nat → Nat} {dirs : List Dir}
    (valid : tree.Valid) (kids : KidsFound dirs tree base) {w next : Walk}
    (standing : ∃ pend, Standing tree base [] pend w)
    (turned : walkTurn dirs w = some next) :
    ∃ pend, Standing tree base [] pend next := by
  obtain ⟨pend, walked, stacked, fresh⟩ := standing
  unfold walkTurn at turned
  split at turned
  · simp at turned
  · next d addr path stack hstack =>
      rw [hstack] at stacked
      cases stacked with
      | @cons _ p _ pend hitem hrest =>
          obtain ⟨ents, sameAddr, samePath⟩ := hitem
          simp only at ents sameAddr samePath
          subst sameAddr samePath
          have standingFresh := fresh
          simp only [List.flatMap_nil, List.nil_append, List.flatMap_cons,
            Pending.addresses, List.cons_append, List.nodup_cons,
            List.mem_append, not_or] at fresh
          rw [if_neg fresh.1.2, Option.some.injEq, ents] at turned
          rw [← turned]
          have visiting : Standing tree base
              [⟨p.path, p.addr, p.start, p.contents⟩] pend
              { w with stack, seen := p.addr :: w.seen } := by
            refine ⟨walked, hrest, ?_⟩
            rw [List.nodup_iff_count_le_one]
            intro a
            have hnodup := standingFresh
            rw [List.nodup_iff_count_le_one] at hnodup
            have hcount := hnodup a
            simp only [List.flatMap_cons, List.flatMap_nil, List.append_nil,
              List.nil_append, Pending.addresses, List.count_append,
              List.count_cons] at hcount ⊢
            omega
          exact Standing.visit valid kids p.contents visiting

/-- The walk as it starts from the root's own block. -/
theorem Standing.start {tree : Tree} (valid : tree.Valid) (base : Nat → Nat) :
    Standing tree base []
      [⟨ascii "$", tree.addr, entriesAt (ascii "$") (place base tree.addr),
        tree.contents⟩]
      (walkStart (blockOf tree.root (place base tree.addr))) where
  walked := by
    obtain ⟨hbases, hnoted⟩ :=
      @note_place base (fun _ => none) (by simp) tree.addr
    refine ⟨?_, ?_, hbases, ?_, ?_⟩
    · intro q e
      simp [walkStart, Pending.entries, Tree.entries]
    · intro f
      simp only [walkStart, blockOf, Tree.root]
      rw [hnoted]
      simp [Pending.directories, Tree.directories, Tree.root]
    · simp [Pending.directories]
    · simpa using valid.kinds
  stacked := by
    refine List.Forall₂.cons ⟨?_, rfl, rfl⟩ List.Forall₂.nil
    simp [blockOf, Tree.root]
  fresh := by
    simpa [Pending.addresses, walkStart] using valid.addresses_distinct

/--
A volume with a block list from which the right blocks are picked lists the
tree and calibrates its directories' fragments.
-/
theorem walk_tree {tree : Tree} {base : Nat → Nat} {dirs : List Dir}
    (valid : tree.Valid) (kids : KidsFound dirs tree base) {fuel : Nat}
    {w : Walk}
    (stops : Loop.run (walkTurn dirs) fuel
      (walkStart (blockOf tree.root (place base tree.addr))) = some w) :
    (∀ q e, w.paths q = some e ↔ (q, e) ∈ tree.entries (place base)) ∧
      (∀ f, (w.fragBase f).isSome ↔ ∃ d ∈ tree.directories, d.addr / 256 = f) ∧
      ∀ f b, w.fragBase f = some b → b = base f := by
  obtain ⟨⟨pend, walked, stacked, -⟩, hdone⟩ := Loop.run_invariant
    (fun _ _ => Standing.turn valid kids) ⟨_, Standing.start valid base⟩ stops
  have hstack : w.stack = [] := by
    unfold walkTurn at hdone
    split at hdone
    · next hnil => exact hnil
    · split at hdone <;> simp at hdone
  rw [hstack] at stacked
  cases stacked with
  | nil =>
      refine ⟨fun q e => ?_, fun f => ?_, walked.bases⟩
      · simpa using walked.listed q e
      · simpa using walked.noted f

end RiscosBuilder.FileCore
