import RiscosBuilder.Agent.Serve
import RiscosBuilder.Library.PosixPath

/-!
# Names in an archive

What `safe_name` lets through stays inside the destination of a push.
-/

namespace RiscosBuilder.Agent

open RiscosBuilder.Library RiscosBuilder.Library.ByteString
open RiscosBuilder.Library.PosixPath

/-! ## The prefixes -/

theorem stripDotSlash_spec (name : List UInt8) :
    ¬ ascii "./" <+: stripDotSlash name ∧
      components 0x2f 0x2e (stripDotSlash name) = components 0x2f 0x2e name ∧
      (stripDotSlash name = name ∨ ∃ rest, name = 0x2e :: rest) := by
  induction name using stripDotSlash.induct with
  | case1 name ih =>
      rw [stripDotSlash]
      refine ⟨ih.1, ?_, Or.inr ⟨_, rfl⟩⟩
      rw [ih.2.1, components_dot_cons name (by decide)]
  | case2 name other =>
      have hsame : stripDotSlash name = name := by
        unfold stripDotSlash
        split
        · exact absurd rfl (other _)
        · rfl
      rw [hsame]
      refine ⟨?_, rfl, Or.inl rfl⟩
      rintro ⟨rest, rfl⟩
      exact other rest rfl

/-- What `safe_name` returns, and what it has asked of it. -/
theorem safeName_eq_some {name safe : List UInt8}
    (accepted : safeName name = some safe) :
    safe = (stripDotSlash name).rdropWhile (· == 0x2f) ∧ safe ≠ [] ∧
      safe.head? ≠ some 0x2f ∧ ascii ".." ∉ safe.splitOn 0x2f := by
  simp only [safeName, List.contains_iff_mem] at accepted
  split_ifs at accepted with refused
  obtain rfl := Option.some.inj accepted
  rw [not_or, not_or] at refused
  exact ⟨rfl, refused⟩

theorem rdropWhile_getLast? {p : UInt8 → Bool} {text : List UInt8} {last : UInt8}
    (hlast : (text.rdropWhile p).getLast? = some last) : p last = false := by
  have given : text.rdropWhile p ≠ [] := by
    intro none
    rw [none] at hlast
    cases hlast
  rw [List.getLast?_eq_some_getLast given, Option.some.injEq] at hlast
  simpa [hlast] using List.rdropWhile_last_not p text given

/-- A name that is safe is left as it is. -/
theorem safeName_fixed {safe : List UInt8} (given : safe ≠ [])
    (relative : safe.head? ≠ some 0x2f) (undotted : ¬ ascii "./" <+: safe)
    (closed : safe.getLast? ≠ some 0x2f)
    (plain : ascii ".." ∉ safe.splitOn 0x2f) : safeName safe = some safe := by
  have hdots : stripDotSlash safe = safe := by
    unfold stripDotSlash
    split
    · exact absurd (List.prefix_append (ascii "./") _) undotted
    · rfl
  have hslashes : safe.rdropWhile (· == 0x2f) = safe := by
    rw [List.rdropWhile_eq_self_iff]
    intro hne same
    refine closed ?_
    rw [List.getLast?_eq_some_getLast hne]
    exact congrArg some (by simpa using same)
  simp [safeName, hdots, hslashes, given, relative, plain]

/-- Nothing but points and slashes that name nothing is taken off. -/
theorem normal_safeName {name safe : List UInt8}
    (accepted : safeName name = some safe) :
    normal 0x2f 0x2e safe = normal 0x2f 0x2e name := by
  obtain ⟨hsafe, given, relative, -⟩ := safeName_eq_some accepted
  obtain ⟨-, hcomps, hfront⟩ := stripDotSlash_spec name
  refine normal_congr ?_ ?_
  · have hname : name.head? ≠ some 0x2f := by
      rcases hfront with same | ⟨rest, rfl⟩
      · -- Nothing was taken off in front, so both begin with the same byte.
        rw [same] at hsafe
        obtain ⟨slashes, hslashes⟩ := List.rdropWhile_prefix (· == 0x2f) name
        rw [← hsafe] at hslashes
        rwa [← hslashes, List.head?_append_of_ne_nil _ given]
      · simp
    rw [root_eq_zero relative, root_eq_zero hname]
  · rw [hsafe, components_rdropWhile, hcomps]

/--
A name that `safe_name` accepts is relative and tidy, is left alone from then
on, means what the member's name means, and lies in every directory that it is
joined to.
-/
theorem safeName_stays {name safe : List UInt8}
    (accepted : safeName name = some safe) :
    safe ≠ [] ∧ safe.head? ≠ some 0x2f ∧ ¬ ascii "./" <+: safe ∧
      safe.getLast? ≠ some 0x2f ∧ ascii ".." ∉ safe.splitOn 0x2f ∧
      safeName safe = some safe ∧
      normpath 0x2f 0x2e safe = normpath 0x2f 0x2e name ∧
      ∀ directory, (normal 0x2f 0x2e directory).Contains
        (normal 0x2f 0x2e (join 0x2f directory safe)) := by
  obtain ⟨hsafe, given, relative, plain⟩ := safeName_eq_some accepted
  have undotted : ¬ ascii "./" <+: safe := fun dots =>
    (stripDotSlash_spec name).1
      (dots.trans (hsafe ▸ List.rdropWhile_prefix _ _))
  have closed : safe.getLast? ≠ some 0x2f := by
    intro hlast
    rw [hsafe] at hlast
    exact absurd (rdropWhile_getLast? hlast) (by decide)
  refine ⟨given, relative, undotted, closed, plain,
    safeName_fixed given relative undotted closed plain, ?_,
    fun directory => contains_join relative plain⟩
  rw [normpath, normpath, normal_safeName accepted]

/-- The member `././a/b//` of an archive. -/
theorem safeName_stays_ab :
    ascii "a/b" ≠ [] ∧ (ascii "a/b").head? ≠ some 0x2f ∧
      ¬ ascii "./" <+: ascii "a/b" ∧ (ascii "a/b").getLast? ≠ some 0x2f ∧
      ascii ".." ∉ (ascii "a/b").splitOn 0x2f ∧
      safeName (ascii "a/b") = some (ascii "a/b") ∧
      normpath 0x2f 0x2e (ascii "a/b") = normpath 0x2f 0x2e (ascii "././a/b//") ∧
      ∀ directory, (normal 0x2f 0x2e directory).Contains
        (normal 0x2f 0x2e (join 0x2f directory (ascii "a/b"))) :=
  @safeName_stays (ascii "././a/b//") (ascii "a/b") (by decide)

/-! ## What a push extracts -/

/-- The names that `tarfile` delivers. -/
def delivered (steps : List TarStep) : List (List UInt8) :=
  steps.filterMap fun step =>
    match step with
    | .read _ => none
    | .member name => some name

@[simp] theorem delivered_append (first second : List TarStep) :
    delivered (first ++ second) = delivered first ++ delivered second :=
  List.filterMap_append

@[simp] theorem delivered_member (name : List UInt8) (steps : List TarStep) :
    delivered (.member name :: steps) = name :: delivered steps :=
  List.filterMap_cons_some rfl

theorem runTar_names (steps : List TarStep) (chan : Telnet) :
    (runTar steps chan).1 = (delivered steps).filterMap safeName := by
  induction steps generalizing chan with
  | nil => rfl
  | cons step steps ih =>
      cases step with
      | read want => exact ih _
      | member name =>
          rw [runTar, ih]
          cases hname : safeName name <;> simp [hname]

/-- However `tarfile` goes on, a push extracts nothing outside its directory. -/
theorem doExtract_stays (chan : Telnet) (extraction : Extraction)
    (directory : List UInt8) :
    ∀ name ∈ (doExtract chan extraction).1,
      (normal 0x2f 0x2e directory).Contains
        (normal 0x2f 0x2e (join 0x2f directory name)) := by
  intro name extracted
  have hname : ∃ steps, name ∈ (delivered steps).filterMap safeName := by
    match extraction with
    | .noDirectory => cases extracted
    | .tar steps true => exact ⟨steps, runTar_names steps chan ▸ extracted⟩
    | .tar steps false => exact ⟨steps, runTar_names steps chan ▸ extracted⟩
  obtain ⟨steps, hname⟩ := hname
  obtain ⟨member, -, accepted⟩ := List.mem_filterMap.mp hname
  obtain ⟨-, -, relative, plain⟩ := safeName_eq_some accepted
  exact contains_join relative plain

end RiscosBuilder.Agent
