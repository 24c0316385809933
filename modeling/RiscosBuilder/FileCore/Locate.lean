import RiscosBuilder.FileCore.Patch

/-!
# Locating a file

The slot that `Volume.locate` answers with, by either of its two ways, and what
a prefix given to `Volume.read` says about the bytes that it returns.
-/

namespace RiscosBuilder.FileCore

open RiscosBuilder.Library RiscosBuilder.Library.ByteImage

/-- The sector-aligned copies of a prefix. -/
def copies (m expected : List UInt8) : List Nat :=
  (occurrences expected 0 m).filter fun i => i % SECTOR = 0

theorem mem_copies {m expected : List UInt8} {place : Nat} :
    place ∈ copies m expected ↔
      place % SECTOR = 0 ∧ place < m.length ∧ expected <+: m.drop place := by
  simp only [copies, List.mem_filter, mem_occurrences, decide_eq_true_eq,
    Nat.zero_le, true_and, Nat.zero_add, Nat.sub_zero]
  exact and_comm

namespace Volume

/--
Where the file at a path is taken to lie: at its calibrated address, or else at
the only sector-aligned copy of the prefix.  Its length is the entry's.
-/
inductive Slot (v : Volume) (path : Path) (expected : List UInt8) :
    Int → Nat → Prop where
  | calibrated {ent : Entry} {off : Int} (entry : v.paths path = some ent)
      (file : ent.isdir = false) (address : v.offsetOf ent = some off) :
      Slot v path expected off ent.length
  | found {ent : Entry} {hit : Nat} (entry : v.paths path = some ent)
      (file : ent.isdir = false) (unknown : v.offsetOf ent = none)
      (given : expected ≠ []) (only : copies v.m expected = [hit]) :
      Slot v path expected hit ent.length

variable {v : Volume} {path : Path} {expected : List UInt8}

/-- `locate` answers with the slot, and fails where there is none. -/
theorem locate_eq_ok_iff {off : Int} {length : Nat} :
    v.locate path expected = .ok (off, length) ↔
      v.Slot path expected off length := by
  constructor
  · intro located
    unfold locate at located
    cases entry : v.paths path with
    | none => simp [entry] at located
    | some ent =>
        cases file : ent.isdir with
        | true => simp [entry, file] at located
        | false =>
            cases address : v.offsetOf ent with
            | some place =>
                simp only [entry, file, Bool.false_eq_true, if_false, address,
                  Except.ok.injEq, Prod.mk.injEq] at located
                obtain ⟨rfl, rfl⟩ := located
                exact .calibrated entry file address
            | none =>
                by_cases given : expected = []
                · simp [entry, file, address, given] at located
                · simp only [entry, file, Bool.false_eq_true, if_false, address,
                    if_neg given] at located
                  split at located
                  · next hit only =>
                      rw [Except.ok.injEq, Prod.mk.injEq] at located
                      obtain ⟨rfl, rfl⟩ := located
                      exact .found entry file address given only
                  · exact absurd located (by simp)
  · intro slot
    cases slot with
    | calibrated entry file address =>
        simp only [locate, entry, file, Bool.false_eq_true, if_false, address]
    | found entry file unknown given only =>
        unfold copies at only
        simp only [locate, entry, file, Bool.false_eq_true, if_false, unknown,
          if_neg given, only]

/-- A file in a calibrated fragment is found whatever the prefix is. -/
theorem locate_of_calibrated {ent : Entry} {off : Int}
    (entry : v.paths path = some ent) (file : ent.isdir = false)
    (address : v.offsetOf ent = some off) :
    v.locate path expected = .ok (off, ent.length) :=
  locate_eq_ok_iff.mpr (.calibrated entry file address)

/-- What is read at the copy of a prefix that fits in the file. -/
theorem prefix_slice {m : List UInt8} {hit length : Nat}
    (here : hit ∈ copies m expected) (fits : expected.length ≤ length) :
    expected <+: slice m (sliceIndex m.length hit)
      (sliceIndex m.length (hit + length)) := by
  obtain ⟨-, hinside, hcopy⟩ := mem_copies.mp here
  have hstart : sliceIndex m.length (hit : Int) = hit := by
    rw [sliceIndex, if_neg (by omega)]
    omega
  have hstop : sliceIndex m.length (hit + length : Int) =
      min (hit + length) m.length := by
    rw [sliceIndex, if_neg (by omega)]
    omega
  have hlength := hcopy.length_le
  rw [List.length_drop] at hlength
  rw [hstart, hstop, slice]
  exact List.prefix_take_iff.mpr ⟨hcopy, by omega⟩

/--
A file that has to be found by its first bytes begins with them, if it is long
enough to hold them.  For a file in a calibrated fragment the prefix plays no
part.
-/
theorem read_prefix {data : List UInt8}
    (reads : v.read path expected = .ok data) :
    ∃ ent, v.paths path = some ent ∧
      (v.offsetOf ent = none → expected.length ≤ ent.length →
        expected <+: data) ∧
      ((v.offsetOf ent).isSome → ∀ other, v.read path other = .ok data) := by
  unfold read at reads
  cases located : v.locate path expected with
  | error failure => simp [located] at reads
  | ok place =>
      obtain ⟨off, length⟩ := place
      simp only [located, Except.ok.injEq] at reads
      cases locate_eq_ok_iff.mp located with
      | @calibrated ent _ entry file address =>
          refine ⟨ent, entry, ?_, fun _ other => ?_⟩
          · intro unknown
            exact absurd (address.symm.trans unknown) (Option.some_ne_none _)
          · simp only [read, locate_of_calibrated entry file address, reads]
      | @found ent hit entry file unknown given only =>
          refine ⟨ent, entry, fun _ fits => ?_, ?_⟩
          · rw [← reads]
            refine prefix_slice ?_ fits
            rw [only]
            exact List.mem_singleton_self hit
          · simp [unknown]

end Volume

/-- As `appsImage`, but no directory tells where the fragment of `Apps` lies. -/
def farImage (bytes : List UInt8) : List UInt8 :=
  sectorImage [blockBytes ⟨ascii "$", 256, 256,
    [⟨ascii "!Boot", 0, 0, 0, 512, 3⟩,
      ⟨ascii "Apps", 0, 0, bytes.length, 512, 3⟩]⟩, bytes]

/-- A file of two bytes, found by the first of them. -/
theorem read_prefix_far :
    ∃ ent, (Volume.within (farImage [65, LF])).paths (ascii "$.Apps") =
        some ent ∧
      ((Volume.within (farImage [65, LF])).offsetOf ent = none →
        [65].length ≤ ent.length → [65] <+: [65, LF]) ∧
      (((Volume.within (farImage [65, LF])).offsetOf ent).isSome → ∀ other,
        (Volume.within (farImage [65, LF])).read (ascii "$.Apps") other =
          .ok [65, LF]) :=
  @Volume.read_prefix (Volume.within (farImage [65, LF])) (ascii "$.Apps") [65]
    [65, LF] (by decide +kernel)

/-- In a calibrated fragment a file that holds `A` is read as if it began in `B`. -/
theorem read_prefix_ignored :
    Volume.load (appsImage [65]) = .ok (Volume.within (appsImage [65])) ∧
      (Volume.within (appsImage [65])).read (ascii "$.Apps") [66] =
        .ok [65] ∧
      ¬ [66] <+: [(65 : UInt8)] :=
  ⟨Volume.load_within (by decide +kernel), by decide +kernel, by decide⟩

end RiscosBuilder.FileCore
