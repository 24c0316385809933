import Mathlib.Data.List.Defs

/-!
# The image in a zip archive

`_unzip_single_img` of `build.py`, and the branch of `_prep_vhd_disk` that gets
its image from an archive.  What `zipfile` makes of an archive is part of the
archive.
-/

namespace RiscosBuilder.Build

/-- What `zipfile` may raise. -/
inductive ZipError where
  | badZipFile
  | osError
  | eofError
  | zlibError
  | runtimeError
  | notImplementedError
  deriving DecidableEq, Repr

/-- The exceptions that `_unzip_single_img` catches. -/
def ZipError.caught : ZipError → Bool
  | badZipFile | osError | eofError => true
  | zlibError | runtimeError | notImplementedError => false

/-- How the reading of a member goes. -/
inductive Reading where
  /-- `z.open` raises. -/
  | refused (error : ZipError)
  /-- A read raises behind what has been delivered. -/
  | broken (delivered : List UInt8) (error : ZipError)
  | whole (content : List UInt8)
  deriving DecidableEq, Repr

structure Member where
  name : String
  reading : Reading
  deriving DecidableEq, Repr

/-- `m.endswith(".img")`. -/
def Member.isImg (m : Member) : Bool :=
  ".img".toList.isSuffixOf m.name.toList

/-- An archive; one that cannot be opened has no members. -/
inductive Archive where
  | unreadable (error : ZipError)
  | listing (members : List Member)
  deriving DecidableEq, Repr

/-- The files at `zpath` and at `img`. -/
structure Disk where
  zip : Option Archive
  img : Option (List UInt8)
  deriving DecidableEq, Repr

/-- The body of the `try` in `_unzip_single_img`. -/
def extract (d : Disk) : Except ZipError Bool × Disk :=
  match d.zip with
  | none => (.error .osError, d)
  | some (.unreadable error) => (.error error, d)
  | some (.listing members) =>
      match members.filter Member.isImg with
      | [member] =>
          match member.reading with
          | .refused error => (.error error, d)
          | .broken delivered error =>
              (.error error, { d with img := some delivered })
          | .whole content => (.ok true, { d with img := some content })
      | _ => (.ok false, d)

/-- `_unzip_single_img`: what it returns or raises, and the files behind it. -/
def unzipSingleImg (d : Disk) : Except ZipError Bool × Disk :=
  match extract d with
  | (.error error, d) =>
      if error.caught then (.ok false, { d with img := none })
      else (.error error, d)
  | (.ok result, d) => (.ok result, d)

/-- How the branch ends: with a conversion, `sys.exit(1)`, or an exception. -/
inductive Ending where
  | converts (content : List UInt8)
  | exits
  | raises (error : ZipError)
  deriving DecidableEq, Repr

/-- `qemu-img convert`. -/
def convert (d : Disk) : Ending × Disk :=
  (.converts (d.img.getD []), d)

/-- The branch behind the first archive; `none` is fetched when `download` gives up. -/
def refetch (fetched : Option Archive) (d : Disk) : Ending × Disk :=
  let d := { d with zip := none }
  match fetched with
  | none => (.exits, d)
  | some archive =>
      match unzipSingleImg { d with zip := some archive } with
      | (.error error, d) => (.raises error, d)
      | (.ok true, d) => convert d
      | (.ok false, d) => (.exits, d)

/-- The zip branch of `_prep_vhd_disk`. -/
def prepVhdDisk (fetched : Option Archive) (d : Disk) : Ending × Disk :=
  if d.img.isSome then convert d
  else if d.zip.isNone then refetch fetched d
  else
    match unzipSingleImg d with
    | (.error error, d) => (.raises error, d)
    | (.ok true, d) => convert d
    | (.ok false, d) => refetch fetched d

/-! ## What there is in an archive -/

/-- What comes of an archive, before any of it is handled. -/
inductive Outcome where
  | image (content : List UInt8)
  | unfit
  /-- Raised before `img` is opened. -/
  | early (error : ZipError)
  | midway (delivered : List UInt8) (error : ZipError)
  deriving DecidableEq, Repr

def Reading.outcome : Reading → Outcome
  | refused error => .early error
  | broken delivered error => .midway delivered error
  | whole content => .image content

/-- An absent archive is one that cannot be opened. -/
def outcome : Option Archive → Outcome
  | none => .early .osError
  | some (.unreadable error) => .early error
  | some (.listing members) =>
      match members.filter Member.isImg with
      | [member] => member.reading.outcome
      | _ => .unfit

namespace Outcome

/-- The archive is intact. -/
def content? : Outcome → Option (List UInt8)
  | image content => some content
  | _ => none

/-- Nothing is raised that would not be caught. -/
def foreseen : Outcome → Bool
  | early error | midway _ error => error.caught
  | _ => true

/-- What stays behind when an exception is not caught. -/
def leftover : Outcome → Option (List UInt8)
  | midway delivered error => if error.caught then none else some delivered
  | _ => none

end Outcome

/-- What `_unzip_single_img` is to do with what it finds at `zpath`. -/
def Extracts (zip : Option Archive) : Prop :=
  (∃ content, (outcome zip).content? = some content ∧
      unzipSingleImg ⟨zip, none⟩ = (.ok true, ⟨zip, some content⟩)) ∨
    ((unzipSingleImg ⟨zip, none⟩).1 = .ok false ∧
      (unzipSingleImg ⟨zip, none⟩).2.img = none)

/-- What the branch is to do with the cached archive and the one it fetches. -/
def Prepares (cached fetched : Option Archive) : Prop :=
  match (outcome cached).content?, (outcome fetched).content? with
  | some content, _ =>
      (prepVhdDisk fetched ⟨cached, none⟩).1 = .converts content
  | none, some content =>
      (prepVhdDisk fetched ⟨cached, none⟩).1 = .converts content
  | none, none =>
      (∀ content, (prepVhdDisk fetched ⟨cached, none⟩).1 ≠ .converts content) ∧
        (prepVhdDisk fetched ⟨cached, none⟩).2.img = none

/--
The cached archive is intact, or fails in a way that is foreseen before one
that leaves nothing behind, or leaves nothing behind before one that is no help.
-/
def Recovers (cached fetched : Option Archive) : Prop :=
  (outcome cached).content?.isSome ∨
    ((outcome cached).foreseen ∧ (outcome fetched).leftover = none) ∨
    ((outcome cached).leftover = none ∧ (outcome fetched).content? = none ∧
      (outcome cached).foreseen = false)

instance (cached fetched : Option Archive) : Decidable (Recovers cached fetched) :=
  inferInstanceAs (Decidable (_ ∨ _))

/-! ## One archive -/

theorem extract_eq (zip : Option Archive) :
    extract ⟨zip, none⟩ =
      match outcome zip with
      | .image content => (.ok true, ⟨zip, some content⟩)
      | .unfit => (.ok false, ⟨zip, none⟩)
      | .early error => (.error error, ⟨zip, none⟩)
      | .midway delivered error => (.error error, ⟨zip, some delivered⟩) := by
  cases zip with
  | none => rfl
  | some archive =>
      cases archive with
      | unreadable error => rfl
      | listing members =>
          unfold extract outcome
          dsimp only
          split
          · next member _ => cases member.reading <;> rfl
          · rfl

section

variable {zip : Option Archive}

theorem unzip_intact {content : List UInt8}
    (intact : (outcome zip).content? = some content) :
    unzipSingleImg ⟨zip, none⟩ = (.ok true, ⟨zip, some content⟩) := by
  rw [unzipSingleImg, extract_eq]
  cases hends : outcome zip <;> simp [hends, Outcome.content?] at intact
  subst intact
  rfl

/-- What is caught is cleared away. -/
theorem unzip_foreseen (broken : (outcome zip).content? = none)
    (foreseen : (outcome zip).foreseen = true) :
    unzipSingleImg ⟨zip, none⟩ = (.ok false, ⟨zip, none⟩) := by
  rw [unzipSingleImg, extract_eq]
  cases hends : outcome zip with
  | image content => simp [hends, Outcome.content?] at broken
  | unfit => rfl
  | early error =>
      rw [hends] at foreseen
      exact if_pos foreseen
  | midway delivered error =>
      rw [hends] at foreseen
      exact if_pos foreseen

/-- What is not caught leaves behind what has been written. -/
theorem unzip_unforeseen (unforeseen : (outcome zip).foreseen = false) :
    ∃ error, unzipSingleImg ⟨zip, none⟩ =
      (.error error, ⟨zip, (outcome zip).leftover⟩) := by
  rw [unzipSingleImg, extract_eq]
  cases hends : outcome zip with
  | image content => simp [hends, Outcome.foreseen] at unforeseen
  | unfit => simp [hends, Outcome.foreseen] at unforeseen
  | early error =>
      rw [hends] at unforeseen
      have hescapes : error.caught = false := unforeseen
      exact ⟨error, by simp [Outcome.leftover, hescapes]⟩
  | midway delivered error =>
      rw [hends] at unforeseen
      have hescapes : error.caught = false := unforeseen
      exact ⟨error, by simp [Outcome.leftover, hescapes]⟩

theorem Outcome.content?_of_unforeseen {outcome : Outcome}
    (unforeseen : outcome.foreseen = false) : outcome.content? = none := by
  cases outcome <;> simp_all [Outcome.foreseen, Outcome.content?]

theorem Outcome.leftover_of_foreseen {outcome : Outcome}
    (foreseen : outcome.foreseen = true) : outcome.leftover = none := by
  cases outcome <;> simp_all [Outcome.foreseen, Outcome.leftover]

theorem Outcome.leftover_of_content {outcome : Outcome} {content : List UInt8}
    (intact : outcome.content? = some content) : outcome.leftover = none := by
  cases outcome <;> simp_all [Outcome.content?, Outcome.leftover]

/-- Every way in which an archive can be found. -/
theorem outcome_cases (zip : Option Archive) :
    (∃ content, (outcome zip).content? = some content ∧
        (outcome zip).foreseen = true) ∨
      ((outcome zip).content? = none ∧ (outcome zip).foreseen = true) ∨
      ((outcome zip).content? = none ∧ (outcome zip).foreseen = false) := by
  cases foreseen : (outcome zip).foreseen with
  | false => exact Or.inr (Or.inr ⟨Outcome.content?_of_unforeseen foreseen, rfl⟩)
  | true =>
      cases found : (outcome zip).content? with
      | none => exact Or.inr (Or.inl ⟨rfl, rfl⟩)
      | some content => exact Or.inl ⟨content, rfl, rfl⟩

theorem extracts_iff (zip : Option Archive) :
    Extracts zip ↔ (outcome zip).foreseen = true := by
  unfold Extracts
  rcases outcome_cases zip with ⟨content, intact, foreseen⟩ |
    ⟨broken, foreseen⟩ | ⟨broken, unforeseen⟩
  · exact ⟨fun _ => foreseen, fun _ => Or.inl ⟨content, intact, unzip_intact intact⟩⟩
  · rw [unzip_foreseen broken foreseen]
    exact ⟨fun _ => foreseen, fun _ => Or.inr ⟨rfl, rfl⟩⟩
  · obtain ⟨error, hraised⟩ := unzip_unforeseen unforeseen
    rw [hraised, broken, unforeseen]
    simp

end

/-! ## The branch -/

section

variable {cached fetched zip : Option Archive}

/-- What is fetched replaces what is there. -/
theorem refetch_image {content : List UInt8}
    (intact : (outcome fetched).content? = some content) :
    (refetch fetched ⟨zip, none⟩).1 = .converts content := by
  cases fetched with
  | none => simp [outcome, Outcome.content?] at intact
  | some archive =>
      simp only [refetch, unzip_intact intact]
      rfl

/-- When it is not intact either, the build ends. -/
theorem refetch_broken (broken : (outcome fetched).content? = none) :
    (∀ content, (refetch fetched ⟨zip, none⟩).1 ≠ .converts content) ∧
      (refetch fetched ⟨zip, none⟩).2.img = (outcome fetched).leftover := by
  cases fetched with
  | none => exact ⟨fun _ => Ending.noConfusion, rfl⟩
  | some archive =>
      cases foreseen : (outcome (some archive)).foreseen with
      | true =>
          rw [Outcome.leftover_of_foreseen foreseen, refetch,
            unzip_foreseen broken foreseen]
          exact ⟨fun _ => Ending.noConfusion, rfl⟩
      | false =>
          obtain ⟨error, hraised⟩ := unzip_unforeseen foreseen
          rw [refetch, hraised]
          exact ⟨fun _ => Ending.noConfusion, rfl⟩

theorem prepVhdDisk_image {content : List UInt8}
    (intact : (outcome cached).content? = some content) :
    (prepVhdDisk fetched ⟨cached, none⟩).1 = .converts content := by
  cases cached with
  | none => simp [outcome, Outcome.content?] at intact
  | some archive =>
      simp only [prepVhdDisk, unzip_intact intact]
      rfl

/-- An archive that is no good is replaced. -/
theorem prepVhdDisk_foreseen (broken : (outcome cached).content? = none)
    (foreseen : (outcome cached).foreseen = true) :
    prepVhdDisk fetched ⟨cached, none⟩ = refetch fetched ⟨cached, none⟩ := by
  cases cached with
  | none => rfl
  | some archive =>
      simp only [prepVhdDisk, unzip_foreseen broken foreseen]
      rfl

/-- One that raises something else is not. -/
theorem prepVhdDisk_unforeseen (unforeseen : (outcome cached).foreseen = false) :
    (∀ content, (prepVhdDisk fetched ⟨cached, none⟩).1 ≠ .converts content) ∧
      (prepVhdDisk fetched ⟨cached, none⟩).2.img = (outcome cached).leftover := by
  obtain ⟨error, hraised⟩ := unzip_unforeseen unforeseen
  cases cached with
  | none => simp [outcome, Outcome.foreseen, ZipError.caught] at unforeseen
  | some archive =>
      simp only [prepVhdDisk, hraised]
      exact ⟨fun _ => Ending.noConfusion, rfl⟩

theorem prepares_iff (cached fetched : Option Archive) :
    Prepares cached fetched ↔ Recovers cached fetched := by
  unfold Prepares Recovers
  rcases outcome_cases cached with ⟨content, intact, foreseen⟩ |
    ⟨broken, foreseen⟩ | ⟨broken, unforeseen⟩
  · simp [intact, prepVhdDisk_image intact]
  · rw [prepVhdDisk_foreseen broken foreseen, broken, foreseen]
    cases found : (outcome fetched).content? with
    | some content =>
        simp [refetch_image found, Outcome.leftover_of_content found]
    | none =>
        obtain ⟨hended, himg⟩ := @refetch_broken fetched cached found
        rw [himg]
        simp [hended]
  · obtain ⟨hended, himg⟩ := @prepVhdDisk_unforeseen cached fetched unforeseen
    rw [broken, unforeseen, himg]
    cases found : (outcome fetched).content? with
    | some content => simp [hended]
    | none => simp [hended]

end

/--
`_unzip_single_img` does what it is to do just if no exception comes up that it
does not catch, and the branch just if it recovers from what it is given.
-/
theorem zip_recovered_iff (zip cached fetched : Option Archive) :
    (Extracts zip ↔ (outcome zip).foreseen = true) ∧
      (Prepares cached fetched ↔ Recovers cached fetched) :=
  ⟨extracts_iff zip, prepares_iff cached fetched⟩

/-- The data of the cached archive are damaged, and the fetched one is intact. -/
theorem zip_recovered_not_zlib :
    let cached := Archive.listing [⟨"riscos-pi.img", .broken [0xeb] .zlibError⟩]
    let fetched := Archive.listing [⟨"riscos-pi.img", .whole [0xeb, 0x3c]⟩]
    prepVhdDisk (some fetched) ⟨some cached, none⟩ =
        (.raises .zlibError, ⟨some cached, some [0xeb]⟩) ∧
      ¬ Extracts (some cached) ∧ ¬ Prepares (some cached) (some fetched) := by
  refine ⟨by decide, ?_, ?_⟩
  · rw [extracts_iff]
    decide
  · rw [prepares_iff]
    decide

end RiscosBuilder.Build
