import RiscosBuilder.FileCore.BlockFormat
import RiscosBuilder.FileCore.Scan

/-!
# Opening an image

`Volume.__init__` on an image that nobody has vetted.  Its two loops stop, the
walk expands no address twice, and there are two ends: a volume, or the exit
that reports no root directory.
-/

namespace RiscosBuilder.FileCore

open RiscosBuilder.Library RiscosBuilder.Library.ByteImage

/-- The variables of the `while True` loop of `Volume.__init__`. -/
structure Search where
  idx : Nat
  dirs : List Dir

/-- One turn of that loop; an exception is the last state it comes to. -/
def searchTurn (m : List UInt8) :
    Except Failure Search → Option (Except Failure Search)
  | .error _ => none
  | .ok s =>
      match (occurrences SBPr 0 m).find? fun i => s.idx ≤ i with
      | none => none
      | some i =>
          match parseAt m i with
          | .error failure => some (.error failure)
          | .ok none => some (.ok ⟨i + 1, s.dirs⟩)
          | .ok (some d) =>
              if d.block % SECTOR = 0 then
                some (.ok ⟨i + 1, s.dirs ++ [d]⟩)
              else some (.ok ⟨i + 1, s.dirs⟩)

/-- The address whose entries a turn of the walk goes through. -/
def expanded (w : Walk) : List Nat :=
  match w.stack with
  | [] => []
  | (_, addr, _) :: _ => if addr ∈ w.seen then [] else [addr]

/-- The addresses expanded in so many turns of the walk, in order. -/
def expansions (dirs : List Dir) : Nat → Walk → List Nat
  | 0, _ => []
  | count + 1, w =>
      match walkTurn dirs w with
      | none => []
      | some next => expanded w ++ expansions dirs count next

/-! ## The search -/

/-- What is read at a place that is found, which is never an exception. -/
def Search.visit (m : List UInt8) (s : Search) (i : Nat) : Search :=
  match parseAt m i with
  | .ok (some d) =>
      if d.block % SECTOR = 0 then ⟨i + 1, s.dirs ++ [d]⟩ else ⟨i + 1, s.dirs⟩
  | _ => ⟨i + 1, s.dirs⟩

theorem Search.visit_idx (m : List UInt8) (s : Search) (i : Nat) :
    (s.visit m i).idx = i + 1 := by
  unfold visit
  split
  · split_ifs <;> rfl
  · rfl

theorem searchTurn_ok (m : List UInt8) (s : Search) :
    searchTurn m (.ok s) =
      ((occurrences SBPr 0 m).find? fun place => s.idx ≤ place).map
        (.ok <| s.visit m ·) := by
  rw [searchTurn]
  cases (occurrences SBPr 0 m).find? fun place => s.idx ≤ place with
  | none => rfl
  | some i =>
      rcases parseAt_cases m i with hnone | ⟨d, hsome, -⟩
      · simp [Search.visit, hnone]
      · simp only [Search.visit, hsome, Option.map_some]
        split_ifs <;> rfl

theorem foldl_visit_dirs {m : List UInt8} {places : List Nat} {dirs : List Dir}
    (collected : collectDirs m places = .ok dirs) (s : Search) :
    (places.foldl (Search.visit m) s).dirs = s.dirs ++ dirs := by
  induction places generalizing s dirs with
  | nil =>
      simp only [collectDirs, Except.ok.injEq] at collected
      rw [← collected, List.append_nil]
      rfl
  | cons i others ih =>
      obtain ⟨rest, hrest, -⟩ := collectDirs_total m others
      rw [List.foldl_cons, ih hrest]
      rcases parseAt_cases m i with hnone | ⟨d, hsome, -⟩
      · simp only [collectDirs, hnone, hrest, Except.ok.injEq] at collected
        simp [Search.visit, hnone, collected]
      · simp only [collectDirs, hsome, hrest] at collected
        split_ifs at collected with aligned
        · rw [Except.ok.injEq] at collected
          simp [Search.visit, hsome, aligned, ← collected]
        · rw [Except.ok.injEq] at collected
          simp [Search.visit, hsome, aligned, collected]

/-- The search stops, with the blocks of the scan. -/
theorem search_collects {m : List UInt8} {dirs : List Dir}
    (scanned : scanDirs m = .ok dirs) :
    ∃ s, Loop.run (searchTurn m) m.length (.ok ⟨0, []⟩) = some (.ok s) ∧
      s.dirs = dirs := by
  have hrun := Loop.run_all_places (occurrences_pairwise SBPr 0 m)
    (searchTurn_ok m) (Search.visit_idx m) ⟨0, []⟩ rfl
  exact ⟨_, Loop.run_enough hrun (occurrences_length_le SBPr 0 m),
    foldl_visit_dirs scanned ⟨0, []⟩⟩

/-! ## The walk -/

@[simp] theorem visitEntries_seen (dirs : List Dir) (addr : Nat) (path : Path)
    (es : List Entry) (w : Walk) :
    (es.foldl (visitEntry dirs addr path) w).seen = w.seen := by
  induction es generalizing w with
  | nil => rfl
  | cons e es ih =>
      rw [List.foldl_cons, ih]
      unfold visitEntry
      split
      · split <;> rfl
      · rfl

/-- What a turn expands is marked as seen, and was not before. -/
theorem expanded_spec {dirs : List Dir} {w next : Walk}
    (turn : walkTurn dirs w = some next) :
    next.seen = expanded w ++ w.seen ∧ (expanded w).Nodup ∧
      ∀ addr ∈ expanded w, addr ∉ w.seen := by
  unfold walkTurn at turn
  unfold expanded
  cases hstack : w.stack with
  | nil => simp [hstack] at turn
  | cons item stack =>
      obtain ⟨d, addr, path⟩ := item
      simp only [hstack] at turn ⊢
      by_cases known : addr ∈ w.seen
      · rw [if_pos known, Option.some.injEq] at turn
        simp [← turn, known]
      · rw [if_neg known, Option.some.injEq] at turn
        simp [← turn, known]

theorem expansions_nodup (dirs : List Dir) (count : Nat) (w : Walk) :
    (expansions dirs count w).Nodup ∧
      ∀ addr ∈ expansions dirs count w, addr ∉ w.seen := by
  induction count generalizing w with
  | zero => simp [expansions]
  | succ count ih =>
      rw [expansions]
      cases turn : walkTurn dirs w with
      | none => simp
      | some next =>
          obtain ⟨hseen, hnodup, hfresh⟩ := expanded_spec turn
          obtain ⟨hrest, hlater⟩ := ih next
          have hapart : ∀ addr ∈ expansions dirs count next,
              addr ∉ expanded w ∧ addr ∉ w.seen := by
            intro addr member
            simpa [hseen] using hlater addr member
          refine ⟨List.nodup_append'.mpr ⟨hnodup, hrest, ?_⟩, ?_⟩
          · intro addr first later
            exact (hapart addr later).1 first
          · intro addr member
            rcases List.mem_append.mp member with first | later
            · exact hfresh addr first
            · exact (hapart addr later).2

/-! ## Opening -/

/-- No magic makes the parser fail, so each entry it reads lies in the image. -/
theorem parseAt_ne_error (m : List UInt8) (i : Nat) (failure : Failure) :
    parseAt m i ≠ .error failure := by
  rcases parseAt_cases m i with hnone | ⟨d, hsome, -⟩
  · simp [hnone]
  · simp [hsome]

/-- Opening ends with a volume or without a root. -/
theorem Volume.load_total {m : List UInt8} (nonempty : m ≠ []) :
    (∃ v, Volume.load m = .ok v) ∨ Volume.load m = .error .noRoot := by
  obtain ⟨dirs, scanned, -, ascending⟩ := scanDirs_total m
  rw [Volume.load, if_neg nonempty, scanned]
  rcases findRoot_spec ascending with ⟨hnone, -⟩ | ⟨root, hsome, isRoot⟩
  · exact Or.inr (by simp [hnone])
  · obtain ⟨w, hrun⟩ := walk_stops isRoot.mem
    exact Or.inl ⟨_, by simp only [hsome, hrun]; rfl⟩

/--
Opening any image ends: the search for magics stops with the blocks of the
scan, no magic makes the parser fail, the walk from the root stops and expands
each address once at most, and all ends in a volume or in the missing root.
-/
theorem opening_total {m : List UInt8} (nonempty : m ≠ []) :
    (∃ s, Loop.run (searchTurn m) m.length (.ok ⟨0, []⟩) = some (.ok s) ∧
        scanDirs m = .ok s.dirs ∧
        ∀ root, findRoot s.dirs = some root →
          (∃ w, Loop.run (walkTurn s.dirs) (walkBound s.dirs)
              (walkStart root) = some w) ∧
            ∀ count, (expansions s.dirs count (walkStart root)).Nodup) ∧
      (∀ i failure, parseAt m i ≠ .error failure) ∧
      ((∃ v, Volume.load m = .ok v) ∨ Volume.load m = .error .noRoot) := by
  refine ⟨?_, parseAt_ne_error m, Volume.load_total nonempty⟩
  obtain ⟨dirs, scanned, -, ascending⟩ := scanDirs_total m
  obtain ⟨s, hrun, rfl⟩ := search_collects scanned
  refine ⟨s, hrun, scanned, fun root found => ⟨?_, fun count => ?_⟩⟩
  · exact walk_stops ((findRoot_eq_some_iff ascending).mp found).mem
  · exact (expansions_nodup s.dirs count _).1

/-- A root that lists itself. -/
def loopImage : List UInt8 :=
  sectorImage [blockBytes
    { name := ascii "$", addr := 256, parent := 256,
      infos := [⟨ascii "!Boot", 0, 0, 3, 515, 3⟩,
        ⟨ascii "Apps", 0, 0, 3, 516, 3⟩, ⟨ascii "$", 0, 0, 2048, 256, 8⟩] }]

theorem opening_total_loop :
    loopImage ≠ [] ∧
      ((∃ v, Volume.load loopImage = .ok v) ∨
        Volume.load loopImage = .error .noRoot) :=
  ⟨by decide +kernel, (opening_total (by decide +kernel)).2.2⟩

example : (blocks loopImage).map (fun root =>
    expansions (blocks loopImage) 9 (walkStart root)) = [[256]] := by
  decide +kernel

end RiscosBuilder.FileCore
