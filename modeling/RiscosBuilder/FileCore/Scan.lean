import RiscosBuilder.FileCore.Volume
import Mathlib.Algebra.Order.BigOperators.Group.List
import Mathlib.Algebra.Order.Group.Nat
import Mathlib.Data.Finset.Card
import Mathlib.Data.List.Pairwise

/-!
# The scan

No magic makes the scan of an image fail: it lists the sector-aligned blocks
that parse, in ascending order.  From such a list `kid` and `findRoot` pick
the first block that fits, and the walk over it stops within its bound.
-/

namespace RiscosBuilder.FileCore

open RiscosBuilder.Library RiscosBuilder.Library.ByteImage

/-- The scan of `m` keeps the block `d`. -/
def Block (m : List UInt8) (d : Dir) : Prop :=
  ∃ i ∈ occurrences SBPr 0 m,
    parseAt m i = .ok (some d) ∧ d.block % SECTOR = 0

/-! ## Parsing never fails -/

theorem unpackFrom_seven {m : List UInt8} {e : Nat}
    (inside : e + 28 ≤ m.length) :
    ∃ load exec length ind attr nlen noff,
      unpackFrom 7 m e = some [load, exec, length, ind, attr, nlen, noff] := by
  rw [unpackFrom, if_pos (by omega)]
  exact ⟨_, _, _, _, _, _, _, rfl⟩

theorem parseEntries_total {m : List UInt8} {ebase hbase namesize : Nat}
    (left : Nat) {i : Nat} (inside : ebase + ENTRY * (i + left) ≤ m.length) :
    ∃ found, parseEntries m ebase hbase namesize i left = .ok found := by
  induction left generalizing i with
  | zero => exact ⟨some [], rfl⟩
  | succ left ih =>
      obtain ⟨load, exec, length, ind, attr, nlen, noff, hwords⟩ :=
        unpackFrom_seven (m := m) (e := ebase + ENTRY * i)
          (by simp only [ENTRY] at inside ⊢; omega)
      obtain ⟨found, hfound⟩ := @ih (i + 1)
        (by rwa [Nat.add_assoc, Nat.add_comm 1])
      rw [parseEntries, hwords]
      simp only [hfound]
      split
      · exact ⟨none, rfl⟩
      · split
        · exact ⟨none, rfl⟩
        · cases found with
          | none => exact ⟨none, rfl⟩
          | some ents => exact ⟨_, rfl⟩

/-- The entries are read from where they say they are. -/
theorem parseEntries_entryOff {m : List UInt8} {ebase hbase namesize : Nat}
    (left : Nat) {i : Nat} {ents : List Entry}
    (parsed : parseEntries m ebase hbase namesize i left = .ok (some ents)) :
    ∀ e ∈ ents, ebase + ENTRY * i ≤ e.entryOff := by
  induction left generalizing i ents with
  | zero =>
      simp only [parseEntries, Except.ok.injEq, Option.some.injEq] at parsed
      simp [← parsed]
  | succ left ih =>
      rw [parseEntries] at parsed
      split at parsed
      · next load exec length ind attr nlen noff hwords =>
          dsimp only at parsed
          by_cases guard : nlen > 64 ∨ noff > namesize + 64
          · simp [if_pos guard] at parsed
          rw [if_neg guard] at parsed
          by_cases plain :
              printable (slice m (hbase + noff) (hbase + noff + nlen)) = true
          · cases hrest : parseEntries m ebase hbase namesize (i + 1) left with
            | error failure => simp [plain, hrest] at parsed
            | ok found =>
                cases found with
                | none => simp [plain, hrest] at parsed
                | some others =>
                    simp only [plain, hrest, Bool.not_true,
                      Bool.false_eq_true, if_false, Except.ok.injEq,
                      Option.some.injEq] at parsed
                    rw [← parsed]
                    intro e member
                    rcases List.mem_cons.mp member with rfl | member
                    · exact Nat.le_refl _
                    · have hle := ih hrest e member
                      simp only [ENTRY] at hle ⊢
                      omega
          · simp [plain] at parsed
      · simp at parsed

/-- What `parseAt` comes to: nothing, or a block four bytes before its magic. -/
theorem parseAt_cases (m : List UInt8) (i : Nat) :
    parseAt m i = .ok none ∨
      ∃ d, parseAt m i = .ok (some d) ∧ d.block = (i : Int) - 4 ∧
        ∀ e ∈ d.ents, d.block < e.entryOff := by
  unfold parseAt
  split
  · next namelen size entries namesize parent hwords =>
      split
      · exact Or.inl rfl
      · split
        · exact Or.inl rfl
        · dsimp only
          split
          · exact Or.inl rfl
          · split
            · exact Or.inl rfl
            · next inside =>
                obtain ⟨found, hfound⟩ := @parseEntries_total m
                  (i + 24 + align4 (namelen + 1))
                  (i + 24 + align4 (namelen + 1) + ENTRY * entries) namesize
                  entries 0 (by rw [Nat.zero_add]; omega)
                rw [hfound]
                cases found with
                | none => exact Or.inl rfl
                | some ents =>
                    refine Or.inr ⟨_, rfl, rfl, ?_⟩
                    intro e member
                    have hle := parseEntries_entryOff entries hfound e member
                    simp only
                    omega
  · exact Or.inl rfl

/-! ## The list of blocks -/

theorem collectDirs_total (m : List UInt8) (places : List Nat) :
    ∃ dirs, collectDirs m places = .ok dirs ∧
      ∀ d, d ∈ dirs ↔ ∃ i ∈ places,
        parseAt m i = .ok (some d) ∧ d.block % SECTOR = 0 := by
  induction places with
  | nil => exact ⟨[], rfl, by simp⟩
  | cons i others ih =>
      obtain ⟨dirs, hdirs, hmem⟩ := ih
      rcases parseAt_cases m i with hnone | ⟨found, hfound, -⟩
      · refine ⟨dirs, by simp [collectDirs, hnone, hdirs], fun d => ?_⟩
        rw [hmem]
        simp [hnone]
      · by_cases aligned : found.block % SECTOR = 0
        · refine ⟨found :: dirs,
            by simp [collectDirs, hfound, hdirs, aligned], fun d => ?_⟩
          rw [List.mem_cons, hmem]
          simp only [List.mem_cons, exists_eq_or_imp, hfound,
            Except.ok.injEq, Option.some.injEq]
          refine or_congr_left ⟨?_, fun same => same.1.symm⟩
          rintro rfl
          exact ⟨rfl, aligned⟩
        · refine ⟨dirs, by simp [collectDirs, hfound, hdirs, aligned],
            fun d => ?_⟩
          rw [hmem]
          simp only [List.mem_cons, exists_eq_or_imp, hfound,
            Except.ok.injEq, Option.some.injEq]
          refine ⟨Or.inr, fun either => either.resolve_left ?_⟩
          rintro ⟨rfl, haligned⟩
          exact aligned haligned

theorem collectDirs_pairwise {m : List UInt8} {places : List Nat}
    {dirs : List Dir} (ascending : places.Pairwise (· < ·))
    (collected : collectDirs m places = .ok dirs) :
    dirs.Pairwise fun first second => first.block < second.block := by
  induction places generalizing dirs with
  | nil =>
      simp only [collectDirs, Except.ok.injEq] at collected
      simp [← collected]
  | cons i others ih =>
      obtain ⟨hfirst, hothers⟩ := List.pairwise_cons.mp ascending
      obtain ⟨rest, hrest, hmem⟩ := collectDirs_total m others
      have hpairwise := ih hothers hrest
      rcases parseAt_cases m i with hnone | ⟨found, hfound, hblock, -⟩
      · simp only [collectDirs, hnone, hrest, Except.ok.injEq] at collected
        exact collected ▸ hpairwise
      · simp only [collectDirs, hfound, hrest] at collected
        split at collected
        · simp only [Except.ok.injEq] at collected
          rw [← collected]
          refine List.pairwise_cons.mpr ⟨fun d member => ?_, hpairwise⟩
          obtain ⟨j, hj, hparsed, -⟩ := (hmem d).mp member
          rcases parseAt_cases m j with hnone | ⟨other, hother, hplace, -⟩
          · simp [hnone] at hparsed
          · have hsame : other = d := by simpa [hparsed] using hother.symm
            have hlt := hfirst j hj
            rw [hblock, ← hsame, hplace]
            omega
        · simp only [Except.ok.injEq] at collected
          exact collected ▸ hpairwise

/-- The scan finds the blocks of the image, in ascending order. -/
theorem scanDirs_total (m : List UInt8) :
    ∃ dirs, scanDirs m = .ok dirs ∧ (∀ d, d ∈ dirs ↔ Block m d) ∧
      dirs.Pairwise fun first second => first.block < second.block := by
  obtain ⟨dirs, hdirs, hmem⟩ := collectDirs_total m (occurrences SBPr 0 m)
  exact ⟨dirs, hdirs, hmem,
    collectDirs_pairwise (occurrences_pairwise _ _ _) hdirs⟩

/-- The scan's result, which is never an error. -/
def blocks (m : List UInt8) : List Dir :=
  match scanDirs m with
  | .ok dirs => dirs
  | .error _ => []

theorem mem_blocks {m : List UInt8} {d : Dir} : d ∈ blocks m ↔ Block m d := by
  obtain ⟨dirs, scanned, hblocks, -⟩ := scanDirs_total m
  rw [blocks, scanned]
  exact hblocks d

instance (m : List UInt8) (P : Dir → Prop) [DecidablePred P] :
    Decidable (∀ d, Block m d → P d) :=
  decidable_of_iff (∀ d ∈ blocks m, P d)
    (forall_congr' fun _ => imp_congr_left mem_blocks)

/-! ## The blocks that are picked -/

/-- Blocks in ascending order, as the scan lists them. -/
abbrev Ascending (dirs : List Dir) : Prop :=
  dirs.Pairwise fun first second => first.block < second.block

theorem Ascending.eq_of_block {dirs : List Dir} (ascending : Ascending dirs)
    {first second : Dir} (hfirst : first ∈ dirs) (hsecond : second ∈ dirs)
    (same : first.block = second.block) : first = second := by
  by_contra apart
  have hne : dirs.Pairwise fun a b => a.block ≠ b.block :=
    ascending.imp fun hlt => ne_of_lt hlt
  have hsymm : Std.Symm fun a b : Dir => a.block ≠ b.block :=
    ⟨fun _ _ => Ne.symm⟩
  exact hne.forall hfirst hsecond apart same

/-- The block for a name in the directory at `addr` is the first that fits. -/
theorem kid_eq_some_iff {dirs : List Dir} (ascending : Ascending dirs)
    {addr : Nat} {name : List UInt8} {d : Dir} :
    kid dirs addr name = some d ↔
      d ∈ dirs ∧ d.parent = addr ∧ d.name = name ∧
        ∀ c ∈ dirs, c.parent = addr → c.name = name → d.block ≤ c.block := by
  induction dirs with
  | nil => simp [kid, byParent]
  | cons first others ih =>
      obtain ⟨hfirst, hothers⟩ := List.pairwise_cons.mp ascending
      have hstep : kid (first :: others) addr name =
          if first.parent = addr ∧ first.name = name then some first
          else kid others addr name := by
        unfold kid byParent
        by_cases hparent : first.parent = addr <;>
          by_cases hname : first.name = name <;>
            simp [hparent, hname]
      rw [hstep]
      split
      · next fits =>
          rw [Option.some.injEq]
          constructor
          · rintro rfl
            refine ⟨List.mem_cons_self, fits.1, fits.2, ?_⟩
            intro c member _ _
            rcases List.mem_cons.mp member with rfl | member
            · exact le_refl _
            · exact le_of_lt (hfirst c member)
          · rintro ⟨member, -, -, least⟩
            rcases List.mem_cons.mp member with same | member
            · exact same.symm
            · have hle := least first List.mem_cons_self fits.1 fits.2
              have hlt := hfirst d member
              omega
      · next misfit =>
          rw [ih hothers]
          constructor
          · rintro ⟨member, hparent, hname, least⟩
            refine ⟨List.mem_cons_of_mem _ member, hparent, hname, ?_⟩
            intro c hc hcParent hcName
            rcases List.mem_cons.mp hc with rfl | hc
            · exact absurd ⟨hcParent, hcName⟩ misfit
            · exact least c hc hcParent hcName
          · rintro ⟨member, hparent, hname, least⟩
            refine ⟨?_, hparent, hname,
              fun c hc => least c (List.mem_cons_of_mem _ hc)⟩
            rcases List.mem_cons.mp member with rfl | member
            · exact absurd ⟨hparent, hname⟩ misfit
            · exact member

/-- Of the blocks that look like a root, the first with the most entries. -/
structure IsRoot (dirs : List Dir) (r : Dir) : Prop where
  mem : r ∈ dirs
  looks : looksLikeRoot r = true
  most : ∀ d ∈ dirs, looksLikeRoot d = true →
    d.ents.length < r.ents.length ∨
      d.ents.length = r.ents.length ∧ r.block ≤ d.block

theorem findRoot_append (dirs : List Dir) (d : Dir) :
    findRoot (dirs ++ [d]) =
      if looksLikeRoot d then
        match findRoot dirs with
        | none => some d
        | some b => if d.ents.length > b.ents.length then some d
            else findRoot dirs
      else findRoot dirs := by
  rw [findRoot, List.foldl_append]
  rfl

theorem findRoot_spec {dirs : List Dir} (ascending : Ascending dirs) :
    (findRoot dirs = none ∧ ∀ d ∈ dirs, looksLikeRoot d = false) ∨
      ∃ r, findRoot dirs = some r ∧ IsRoot dirs r := by
  induction dirs using List.reverseRecOn with
  | nil => exact Or.inl ⟨rfl, by simp⟩
  | append_singleton dirs d ih =>
      obtain ⟨hdirs, -, hlast⟩ := List.pairwise_append.mp ascending
      have hlt : ∀ c ∈ dirs, c.block < d.block :=
        fun c member => hlast c member d List.mem_cons_self
      rw [findRoot_append]
      by_cases looks : looksLikeRoot d = true
      · rw [if_pos looks]
        refine Or.inr ?_
        rcases ih hdirs with ⟨hnone, hfalse⟩ | ⟨r, hsome, isRoot⟩
        · rw [hnone]
          refine ⟨d, rfl, by simp, looks, ?_⟩
          intro c member hlooks
          rcases List.mem_append.mp member with member | member
          · simp [hfalse c member] at hlooks
          · exact Or.inr (by simp [List.mem_singleton.mp member])
        · rw [hsome]
          dsimp only
          by_cases more : d.ents.length > r.ents.length
          · rw [if_pos more]
            refine ⟨d, rfl, by simp, looks, ?_⟩
            intro c member hlooks
            rcases List.mem_append.mp member with member | member
            · have hmost := isRoot.most c member hlooks
              exact Or.inl (by omega)
            · exact Or.inr (by simp [List.mem_singleton.mp member])
          · rw [if_neg more]
            refine ⟨r, rfl, List.mem_append_left _ isRoot.mem,
              isRoot.looks, ?_⟩
            intro c member hlooks
            rcases List.mem_append.mp member with member | member
            · exact isRoot.most c member hlooks
            · have hbefore := hlt r isRoot.mem
              rw [List.mem_singleton.mp member]
              omega
      · rw [if_neg looks]
        have hlooks : looksLikeRoot d = false := by simpa using looks
        rcases ih hdirs with ⟨hnone, hfalse⟩ | ⟨r, hsome, isRoot⟩
        · refine Or.inl ⟨hnone, ?_⟩
          intro c member
          rcases List.mem_append.mp member with member | member
          · exact hfalse c member
          · rw [List.mem_singleton.mp member, hlooks]
        · refine Or.inr ⟨r, hsome, List.mem_append_left _ isRoot.mem,
            isRoot.looks, ?_⟩
          intro c member hc
          rcases List.mem_append.mp member with member | member
          · exact isRoot.most c member hc
          · rw [List.mem_singleton.mp member, hlooks] at hc
            exact absurd hc Bool.false_ne_true

theorem findRoot_eq_some_iff {dirs : List Dir} (ascending : Ascending dirs)
    {r : Dir} : findRoot dirs = some r ↔ IsRoot dirs r := by
  rcases findRoot_spec ascending with ⟨hnone, hfalse⟩ | ⟨found, hsome, isRoot⟩
  · rw [hnone]
    refine ⟨fun absurdity => by simp at absurdity, fun isRoot => ?_⟩
    have hlooks := isRoot.looks
    rw [hfalse r isRoot.mem] at hlooks
    exact absurd hlooks Bool.false_ne_true
  · rw [hsome, Option.some.injEq]
    refine ⟨fun same => same ▸ isRoot, fun other => ?_⟩
    have hfound := isRoot.most r other.mem other.looks
    have hother := other.most found isRoot.mem isRoot.looks
    exact ascending.eq_of_block isRoot.mem other.mem (by omega)

/-! ## The walk stops -/

/-- All the addresses that the walk can meet. -/
def reachable (dirs : List Dir) (root : Dir) : List Nat :=
  root.parent :: dirs.flatMap fun d => d.ents.map Entry.ind

/-- The walk has only blocks of the list and addresses from them before it. -/
structure Bounded (dirs : List Dir) (root : Dir) (w : Walk) : Prop where
  blocks : ∀ item ∈ w.stack, item.1 ∈ dirs
  addresses : ∀ item ∈ w.stack, item.2.1 ∈ reachable dirs root

/-- How many addresses are still to be expanded. -/
def unseen (dirs : List Dir) (root : Dir) (seen : List Nat) : Nat :=
  ((reachable dirs root).toFinset.filter (· ∉ seen)).card

theorem kid_spec {dirs : List Dir} {addr : Nat} {name : List UInt8} {c : Dir}
    (found : kid dirs addr name = some c) :
    c ∈ dirs ∧ c.parent = addr ∧ c.name = name := by
  unfold kid byParent at found
  have hmember := List.mem_filter.mp (List.mem_of_find?_eq_some found)
  have hname := List.find?_some found
  exact ⟨hmember.1, of_decide_eq_true hmember.2, of_decide_eq_true hname⟩

/-- Visiting entries adds at most one item each to the stack. -/
theorem visit_bounded {dirs : List Dir} {root : Dir} {addr : Nat} {path : Path}
    (es : List Entry) {w : Walk} (bounded : Bounded dirs root w)
    (inside : ∀ e ∈ es, e.ind ∈ reachable dirs root) :
    Bounded dirs root (es.foldl (visitEntry dirs addr path) w) ∧
      (es.foldl (visitEntry dirs addr path) w).seen = w.seen ∧
      (es.foldl (visitEntry dirs addr path) w).stack.length ≤
        w.stack.length + es.length := by
  induction es generalizing w with
  | nil => exact ⟨bounded, rfl, Nat.le_refl _⟩
  | cons e es ih =>
      have hturn : Bounded dirs root (visitEntry dirs addr path w e) ∧
          (visitEntry dirs addr path w e).seen = w.seen ∧
          (visitEntry dirs addr path w e).stack.length ≤
            w.stack.length + 1 := by
        unfold visitEntry
        split
        · split
          · exact ⟨bounded, rfl, Nat.le_succ _⟩
          · next c found =>
              refine ⟨⟨?_, ?_⟩, rfl, Nat.le_refl _⟩
              · intro item member
                rcases List.mem_cons.mp member with rfl | member
                · exact (kid_spec found).1
                · exact bounded.blocks item member
              · intro item member
                rcases List.mem_cons.mp member with rfl | member
                · exact inside e List.mem_cons_self
                · exact bounded.addresses item member
        · exact ⟨⟨bounded.blocks, bounded.addresses⟩, rfl, Nat.le_succ _⟩
      obtain ⟨hbounded, hseen, hlength⟩ := hturn
      obtain ⟨hlast, hsame, hle⟩ := ih hbounded
        fun other member => inside other (List.mem_cons_of_mem _ member)
      rw [List.foldl_cons]
      refine ⟨hlast, hsame.trans hseen, ?_⟩
      simp only [List.length_cons]
      omega

theorem unseen_cons_lt {dirs : List Dir} {root : Dir} {addr : Nat}
    {seen : List Nat} (member : addr ∈ reachable dirs root)
    (fresh : addr ∉ seen) :
    unseen dirs root (addr :: seen) < unseen dirs root seen := by
  apply Finset.card_lt_card
  refine Finset.ssubset_iff_of_subset ?_ |>.mpr ⟨addr, ?_, ?_⟩
  · intro other
    simp only [Finset.mem_filter, List.mem_cons, not_or]
    exact fun here => ⟨here.1, here.2.2⟩
  · exact Finset.mem_filter.mpr ⟨List.mem_toFinset.mpr member, fresh⟩
  · simp

/-- The walk over a list of blocks stops within its bound. -/
theorem walk_stops {dirs : List Dir} {root : Dir} (member : root ∈ dirs) :
    ∃ w, Loop.run (walkTurn dirs) (walkBound dirs) (walkStart root) = some w := by
  let size := (dirs.map fun d => d.ents.length).sum
  apply Loop.run_stops (P := Bounded dirs root)
    (fun w => w.stack.length + unseen dirs root w.seen * (size + 1))
  · intro w next bounded turn
    unfold walkTurn at turn
    split at turn
    · simp at turn
    · next d addr path stack hstack =>
        have hd : d ∈ dirs := bounded.blocks (d, addr, path) (by simp [hstack])
        have haddr : addr ∈ reachable dirs root :=
          bounded.addresses (d, addr, path) (by simp [hstack])
        have hrest : ∀ seen, Bounded dirs root { w with stack, seen } :=
          fun seen => ⟨fun item later => bounded.blocks item (by simp [hstack, later]),
            fun item later => bounded.addresses item (by simp [hstack, later])⟩
        split at turn
        · simp only [Option.some.injEq] at turn
          rw [← turn]
          refine ⟨hrest w.seen, ?_⟩
          simp [hstack]
        · next fresh =>
            simp only [Option.some.injEq] at turn
            rw [← turn]
            obtain ⟨hbounded, hseen, hlength⟩ :=
              @visit_bounded dirs root addr path d.ents _
                (hrest (addr :: w.seen)) (by
                  intro e he
                  apply List.mem_cons_of_mem
                  exact List.mem_flatMap.mpr
                    ⟨d, hd, List.mem_map_of_mem he⟩)
            refine ⟨hbounded, ?_⟩
            have hsize : d.ents.length ≤ size :=
              List.le_sum_of_mem (List.mem_map_of_mem hd)
            have hunseen := unseen_cons_lt haddr fresh
            have hmul := Nat.mul_le_mul_right (size + 1)
              (Nat.succ_le_of_lt hunseen)
            rw [Nat.succ_mul] at hmul
            simp only [hseen, hstack, List.length_cons] at hlength ⊢
            omega
  · refine ⟨?_, ?_⟩
    · simpa [walkStart] using member
    · simp [walkStart, reachable]
  · have hcard : unseen dirs root [] ≤ size + 1 := by
      apply (Finset.card_filter_le _ _).trans
      apply (List.toFinset_card_le _).trans
      simp [reachable, size, List.length_flatMap]
    have hmul := Nat.mul_le_mul_right (size + 1) hcard
    have hbound : walkBound dirs = (size + 1) * (size + 1) + 1 := by
      rw [← Nat.pow_two]
      rfl
    simp only [walkStart, List.length_cons, List.length_nil, hbound]
    omega

end RiscosBuilder.FileCore
