import RiscosBuilder.FileCore.Locate
import RiscosBuilder.FileCore.Opening

/-!
# The search by content

The loop with which `Volume.locate` looks for the first bytes of a file.  It
stops with all sector-aligned copies, however the copies overlap, and a slot is
answered just if there is one of them.
-/

namespace RiscosBuilder.FileCore

open RiscosBuilder.Library RiscosBuilder.Library.ByteImage

/-- The variables of the `while True` loop of `Volume.locate`. -/
structure Hits where
  idx : Nat
  hits : List Nat
  deriving DecidableEq, Repr

/-- One turn of that loop. -/
def hitsTurn (m expectPrefix : List UInt8) (s : Hits) : Option Hits :=
  match find m expectPrefix s.idx with
  | none => none
  | some i =>
      some ⟨i + 1, if i % SECTOR = 0 then s.hits ++ [i] else s.hits⟩

/-- What `Volume.locate` does with the hits. -/
def answer (path : Path) (ent : Entry) (expectPrefix : List UInt8) :
    List Nat → Except Failure (Int × Nat)
  | [hit] => .ok (hit, ent.length)
  | hits => .error (.copies path (expectPrefix.take 40) hits.length
      (hits.take 8))

/-- A place that is found is a hit if it is aligned. -/
def Hits.visit (s : Hits) (i : Nat) : Hits :=
  ⟨i + 1, if i % SECTOR = 0 then s.hits ++ [i] else s.hits⟩

theorem foldl_visit_hits (places : List Nat) (s : Hits) :
    (places.foldl Hits.visit s).hits =
      s.hits ++ places.filter fun i => i % SECTOR = 0 := by
  induction places generalizing s with
  | nil => exact (List.append_nil _).symm
  | cons i others ih =>
      rw [List.foldl_cons, ih]
      by_cases aligned : i % SECTOR = 0
      · simp [Hits.visit, aligned]
      · simp [Hits.visit, aligned]

theorem hitsTurn_eq (m expected : List UInt8) (s : Hits) :
    hitsTurn m expected s =
      ((occurrences expected 0 m).find? fun place => s.idx ≤ place).map s.visit := by
  rw [hitsTurn, ← find]
  cases find m expected s.idx <;> rfl

/-- The loop stops, with the aligned copies of the prefix. -/
theorem hits_eq_copies (m expected : List UInt8) :
    ∃ s, Loop.run (hitsTurn m expected) m.length ⟨0, []⟩ = some s ∧
      s.hits = copies m expected := by
  have hrun := Loop.run_all_places (occurrences_pairwise expected 0 m)
    (hitsTurn_eq m expected) (fun _ _ => rfl) ⟨0, []⟩ rfl
  exact ⟨_, Loop.run_enough hrun (occurrences_length_le expected 0 m),
    foldl_visit_hits _ _⟩

/-- The prefix is read off the image at a position on a sector boundary. -/
def IsCopy (m expected : List UInt8) (place : Nat) : Prop :=
  place % SECTOR = 0 ∧ slice m place (place + expected.length) = expected

theorem isCopy_iff {m expected : List UInt8} {place : Nat}
    (given : expected ≠ []) :
    IsCopy m expected place ↔ place ∈ copies m expected := by
  have hslice : slice m place (place + expected.length) = expected ↔
      expected <+: m.drop place := by
    rw [slice, Nat.add_sub_cancel_left, List.prefix_iff_eq_take]
    exact eq_comm
  rw [IsCopy, hslice, mem_copies]
  refine and_congr_right fun _ => ⟨fun here => ⟨?_, here⟩, And.right⟩
  have hle := here.length_le
  have hpos := List.length_pos_of_ne_nil given
  rw [List.length_drop] at hle
  omega

theorem copies_nodup (m expected : List UInt8) : (copies m expected).Nodup :=
  ((occurrences_pairwise expected 0 m).imp Nat.ne_of_lt).filter _

/-- The search has found one place just if the image has one copy. -/
theorem copies_eq_singleton_iff {m expected : List UInt8} {place : Nat}
    (given : expected ≠ []) :
    copies m expected = [place] ↔
      IsCopy m expected place ∧
        ∀ other, IsCopy m expected other → other = place := by
  simp only [isCopy_iff given]
  constructor
  · intro only
    simp [only]
  · rintro ⟨here, alone⟩
    have hnodup := copies_nodup m expected
    cases hlist : copies m expected with
    | nil => simp [hlist] at here
    | cons first others =>
        rw [hlist] at alone hnodup
        obtain rfl := alone first List.mem_cons_self
        cases others with
        | nil => rfl
        | cons second others =>
            obtain rfl := alone second (by simp)
            simp at hnodup

namespace Volume

theorem locate_eq_answer {v : Volume} {path : Path} {ent : Entry}
    {expected : List UInt8} (entry : v.paths path = some ent)
    (file : ent.isdir = false) (unknown : v.offsetOf ent = none)
    (given : expected ≠ []) :
    v.locate path expected = answer path ent expected (copies v.m expected) := by
  simp only [locate, entry, file, unknown, given, Bool.false_eq_true, if_false]
  unfold copies
  generalize List.filter _ (occurrences expected 0 v.m) = hits
  cases hits with
  | nil => rfl
  | cons hit others =>
      cases others with
      | nil => rfl
      | cons other others => rfl

/--
For an uncalibrated file the search loop stops, its hits decide the answer, and
a slot is answered just if the image has exactly one aligned copy of the
prefix: that copy's.  Without one, or with several, `locate` fails.
-/
theorem locate_unambiguous {v : Volume} {path : Path} {ent : Entry}
    {expected : List UInt8} (entry : v.paths path = some ent)
    (file : ent.isdir = false) (unknown : v.offsetOf ent = none)
    (given : expected ≠ []) :
    (∃ s, Loop.run (hitsTurn v.m expected) v.m.length ⟨0, []⟩ = some s ∧
      v.locate path expected = answer path ent expected s.hits) ∧
    (∀ off length, v.locate path expected = .ok (off, length) ↔
      length = ent.length ∧ ∃ place : Nat, off = place ∧
        IsCopy v.m expected place ∧
          ∀ other, IsCopy v.m expected other → other = place) ∧
    ((¬ ∃! place, IsCopy v.m expected place) →
      ∃ failure, v.locate path expected = .error failure) := by
  have hlocate := locate_eq_answer entry file unknown given
  have hsome : ∀ off length, v.locate path expected = .ok (off, length) ↔
      length = ent.length ∧ ∃ place : Nat, off = place ∧
        IsCopy v.m expected place ∧
          ∀ other, IsCopy v.m expected other → other = place := by
    intro off length
    simp only [← copies_eq_singleton_iff given]
    rw [hlocate]
    constructor
    · intro found
      unfold answer at found
      split at found
      · next hit only =>
          rw [Except.ok.injEq, Prod.mk.injEq] at found
          exact ⟨found.2.symm, hit, found.1.symm, only⟩
      · exact absurd found (by simp)
    · rintro ⟨rfl, place, rfl, only⟩
      rw [only, answer]
  refine ⟨?_, hsome, fun ambiguous => ?_⟩
  · obtain ⟨s, hrun, hhits⟩ := hits_eq_copies v.m expected
    exact ⟨s, hrun, hhits ▸ hlocate⟩
  · cases located : v.locate path expected with
    | error failure => exact ⟨failure, rfl⟩
    | ok slot =>
        obtain ⟨-, place, -, here, alone⟩ := (hsome _ _).mp located
        exact absurd ⟨place, here, alone⟩ ambiguous

/-- The entry of `Apps`, whose two bytes are found by the first of them. -/
def farApps : Entry :=
  ⟨ascii "Apps", 0, 2, 512, 3, false, 60⟩

theorem locate_unambiguous_far :
    ∃ s, Loop.run (hitsTurn (within (farImage [65, LF])).m [65])
        (within (farImage [65, LF])).m.length ⟨0, []⟩ = some s ∧
      (within (farImage [65, LF])).locate (ascii "$.Apps") [65] =
        answer (ascii "$.Apps") farApps [65] s.hits :=
  (@locate_unambiguous (within (farImage [65, LF])) (ascii "$.Apps") farApps [65]
    (by decide +kernel) rfl (by decide +kernel) (by decide)).1

end Volume

end RiscosBuilder.FileCore
