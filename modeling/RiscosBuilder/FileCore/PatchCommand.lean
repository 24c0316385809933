import RiscosBuilder.FileCore.Locate

/-!
# The `patch` command

What a run of `rofilecore.py patch` makes of the image: which bytes it can
change, and what the lines of the slot are afterwards.
-/

namespace RiscosBuilder.FileCore

open RiscosBuilder.Library RiscosBuilder.Library.ByteImage
  RiscosBuilder.Library.FileImage

/--
The `patch` command of `main`: the offset, the slot's length and the padding
that it prints, or how it fails, and the image that it leaves.
-/
def patchCommand (image : List UInt8) (path : Path)
    (body expectPrefix : List UInt8) :
    Except Failure (Int × Nat × Nat) × List UInt8 :=
  match Volume.load image with
  | .error failure => (.error failure, image)
  | .ok vol =>
      match vol.locate path expectPrefix with
      | .error failure => (.error failure, image)
      | .ok (off, length) =>
          match patchInPlace image off length body expectPrefix with
          | .error failure => (.error failure, image)
          | .ok (pad, patched) => (.ok (off, length, pad), patched)

variable {image : List UInt8} {path : Path} {body expected : List UInt8}

theorem patchCommand_eq_ok_iff {off : Int} {length pad : Nat}
    {left : List UInt8} :
    patchCommand image path body expected = (.ok (off, length, pad), left) ↔
      ∃ v, Volume.load image = .ok v ∧ v.Slot path expected off length ∧
        patchInPlace image off length body expected = .ok (pad, left) := by
  unfold patchCommand
  cases loaded : Volume.load image with
  | error failure => simp
  | ok v =>
      simp only [Except.ok.injEq, exists_eq_left']
      cases located : v.locate path expected with
      | error failure =>
          simp only [Prod.mk.injEq, reduceCtorEq, false_and, false_iff]
          rintro ⟨slot, -⟩
          rw [Volume.locate_eq_ok_iff.mpr slot] at located
          exact absurd located (by simp)
      | ok place =>
          obtain ⟨start, size⟩ := place
          rw [← Volume.locate_eq_ok_iff, located]
          simp only [Except.ok.injEq, Prod.mk.injEq]
          cases accepted : patchInPlace image start size body expected with
          | error failure =>
              constructor
              · rintro ⟨⟨⟩, -⟩
              · rintro ⟨⟨rfl, rfl⟩, again⟩
                exact absurd (accepted.symm.trans again) (by simp)
          | ok result =>
              simp only [Prod.mk.injEq, Except.ok.injEq]
              constructor
              · rintro ⟨⟨rfl, rfl, rfl⟩, rfl⟩
                exact ⟨⟨rfl, rfl⟩, accepted⟩
              · rintro ⟨⟨rfl, rfl⟩, again⟩
                rw [again, Except.ok.injEq] at accepted
                subst accepted
                exact ⟨⟨rfl, rfl, rfl⟩, rfl⟩

/-- Whatever makes the command fail, it has not written yet. -/
theorem patchCommand_error {failure : Failure} {left : List UInt8}
    (fails : patchCommand image path body expected = (.error failure, left)) :
    left = image := by
  unfold patchCommand at fails
  split at fails
  · exact (Prod.mk.inj fails).2.symm
  · split at fails
    · exact (Prod.mk.inj fails).2.symm
    · split at fails
      · exact (Prod.mk.inj fails).2.symm
      · exact absurd (Prod.mk.inj fails).1 (by simp)

/-- The command fails and changes nothing, or changes nothing but its slot. -/
structure Confined (image : List UInt8) (path : Path)
    (body expected : List UInt8) : Prop where
  failed : ∀ failure left,
    patchCommand image path body expected = (.error failure, left) →
      left = image
  patched : ∀ off length pad left,
    patchCommand image path body expected = (.ok (off, length, pad), left) →
      left.length = image.length ∧ 0 ≤ off ∧ off + length ≤ image.length ∧
        ∀ i : Nat, (i : Int) < off ∨ off + length ≤ i → left[i]? = image[i]?

/-- What `patch_in_place` checks before it writes. -/
structure Accepts (image : List UInt8) (off : Int) (length : Nat)
    (body expected : List UInt8) : Prop where
  positive : 0 ≤ off
  matching : expected <+: slice image off.toNat (off.toNat + length)
  fits : (normalise body).length ≤ length

theorem patchInPlace_isOk_iff {off : Int} {length : Nat} :
    (∃ result, patchInPlace image off length body expected = .ok result) ↔
      Accepts image off length body expected := by
  constructor
  · rintro ⟨⟨pad, patched⟩, accepted⟩
    obtain ⟨positive, matching, hfits, -⟩ :=
      patchInPlace_eq_ok_iff.mp accepted
    exact ⟨positive, matching, by omega⟩
  · rintro ⟨positive, matching, fits⟩
    exact ⟨(length - (normalise body).length, _), patchInPlace_eq_ok_iff.mpr
      ⟨positive, matching, by omega, rfl⟩⟩

/--
The patch changes nothing but its slot exactly when the slot lies inside the
image or the patch is refused.
-/
theorem patch_confined (image : List UInt8) (path : Path)
    (body expected : List UInt8) :
    Confined image path body expected ↔
      ∀ v off length, Volume.load image = .ok v →
        v.Slot path expected off length →
        Accepts image off length body expected →
          off + length ≤ image.length := by
  constructor
  · rintro confined v off length loaded slot accepts
    obtain ⟨⟨pad, left⟩, accepted⟩ := patchInPlace_isOk_iff.mpr accepts
    exact (confined.patched off length pad left
      (patchCommand_eq_ok_iff.mpr ⟨v, loaded, slot, accepted⟩)).2.2.1
  · intro lies
    refine ⟨fun _ _ => patchCommand_error, ?_⟩
    intro off length pad left done
    obtain ⟨v, loaded, slot, accepted⟩ := patchCommand_eq_ok_iff.mp done
    have hinside := lies v off length loaded slot
      (patchInPlace_isOk_iff.mp ⟨_, accepted⟩)
    obtain ⟨positive, -, hfits, rfl⟩ := patchInPlace_eq_ok_iff.mp accepted
    have hwritten : (normalise body ++ padding pad).length = length := by
      rw [List.length_append, padding_length, hfits]
    have hroom : off.toNat + (normalise body ++ padding pad).length ≤
        image.length := by
      omega
    refine ⟨writeAt_length hroom, positive, hinside, ?_⟩
    intro i apart
    exact writeAt_outside (by omega) (by omega)

/-- As `appsImage`, but the entry of `Apps` gives it a length of its own. -/
def claimedImage (length : Nat) (bytes : List UInt8) : List UInt8 :=
  sectorImage [blockBytes ⟨ascii "$", 256, 256,
    [⟨ascii "!Boot", 0, 0, 0, 512, 3⟩,
      ⟨ascii "Apps", 0, 0, length, 257, 3⟩]⟩, bytes]

/--
An image that ends one byte short of a slot: the prefix matches what there is,
and the patch writes a byte behind the end of the image.
-/
theorem patch_confined_grows :
    (claimedImage 513 [65]).length = 1024 ∧
      (patchCommand (claimedImage 513 [65]) (ascii "$.Apps") [66]
        [65]).2.length = 1025 ∧
      ¬ Confined (claimedImage 513 [65]) (ascii "$.Apps") [66] [65] := by
  have hbefore : (claimedImage 513 [65]).length = 1024 := by decide +kernel
  have hafter :
      patchCommand (claimedImage 513 [65]) (ascii "$.Apps") [66] [65] =
        (.ok (512, 513, 511), writeAt (claimedImage 513 [65]) 512
          (normalise [66] ++ padding 511)) := by
    decide +kernel
  have hgrown : (writeAt (claimedImage 513 [65]) 512
      (normalise [66] ++ padding 511)).length = 1025 := by
    decide +kernel
  refine ⟨hbefore, by rw [hafter]; exact hgrown, fun confined => ?_⟩
  have hsame := (confined.patched 512 513 511 _ hafter).1
  rw [hgrown, hbefore] at hsame
  exact absurd hsame (by decide)

/-! ## The lines of a patched script -/

/-- A line without the CR that stood in front of its LF. -/
def dropCR (line : List UInt8) : List UInt8 :=
  if line.getLast? = some CR then line.dropLast else line

/--
The lines of a body: each that is ended by an LF, or by CR and LF, and what is
left behind the last LF, if the body does not end with it.
-/
def bodyLines (body : List UInt8) : List (List UInt8) :=
  (body.splitOn LF).dropLast.map dropCR ++
    if body.getLast? = some LF then [] else [(body.splitOn LF).getLastD []]

theorem splitOn_line {line : List UInt8} (free : LF ∉ line)
    (rest : List UInt8) :
    (line ++ LF :: rest).splitOn LF = line :: rest.splitOn LF := by
  rw [List.splitOn_append_cons_self, List.splitOn_eq_singleton free]
  rfl

theorem bodyLines_free {body : List UInt8} (free : LF ∉ body) :
    bodyLines body = [body] := by
  have hlast : body.getLast? ≠ some LF := fun ends =>
    free (List.mem_of_getLast? ends)
  rw [bodyLines, List.splitOn_eq_singleton free, if_neg hlast]
  rfl

theorem bodyLines_last {line : List UInt8} (free : LF ∉ line) :
    bodyLines (line ++ [LF]) = [dropCR line] := by
  rw [bodyLines, splitOn_line free, List.getLast?_concat, if_pos rfl]
  rfl

theorem bodyLines_line {line rest : List UInt8} (free : LF ∉ line)
    (more : rest ≠ []) :
    bodyLines (line ++ LF :: rest) = dropCR line :: bodyLines rest := by
  obtain ⟨first, others, hsplit⟩ :=
    List.exists_cons_of_ne_nil (List.splitOn_ne_nil LF rest)
  have hlast : (line ++ LF :: rest).getLast? = rest.getLast? := by
    rw [List.getLast?_append_of_ne_nil _ (List.cons_ne_nil _ _),
      List.getLast?_cons_of_ne_nil more]
  rw [bodyLines, bodyLines, splitOn_line free, hlast, hsplit,
    List.dropLast_cons_cons, List.map_cons, List.cons_append]
  rfl

theorem replaceCRLF_free {body : List UInt8} (free : LF ∉ body) :
    replaceCRLF body = body :=
  replaceCRLF_eq_self fun pair => free (pair.subset (by simp))

theorem replaceCRLF_line {line : List UInt8} (free : LF ∉ line)
    (rest : List UInt8) :
    replaceCRLF (line ++ LF :: rest) = dropCR line ++ LF :: replaceCRLF rest := by
  induction line with
  | nil =>
      have hend : ∀ next : UInt8, ¬ (LF = CR ∧ next = LF) := by simp [LF, CR]
      cases rest with
      | nil => rfl
      | cons next rest => simp [replaceCRLF, hend, dropCR]
  | cons byte line ih =>
      have hbyte : byte ≠ LF := fun same => free (same ▸ List.mem_cons_self)
      have hlater := ih fun member => free (List.mem_cons_of_mem _ member)
      cases line with
      | nil =>
          by_cases cr : byte = CR
          · simp [replaceCRLF, dropCR, cr]
          · rw [List.nil_append] at hlater
            simp [replaceCRLF, dropCR, cr, hlater]
      | cons next line =>
          have hnext : ¬ (byte = CR ∧ next = LF) := fun pair =>
            free (by simp [pair.2])
          have hdrop : dropCR (byte :: next :: line) =
              byte :: dropCR (next :: line) := by
            unfold dropCR
            rw [List.getLast?_cons_cons]
            split <;> rfl
          rw [List.cons_append] at hlater
          rw [List.cons_append, List.cons_append, replaceCRLF, if_neg hnext,
            hlater, hdrop, List.cons_append]

/-- A body has no LF, or its first LF ends it, or more of it follows. -/
@[elab_as_elim]
theorem body_induction {motive : List UInt8 → Prop}
    (free : ∀ body, LF ∉ body → motive body)
    (last : ∀ line, LF ∉ line → motive (line ++ [LF]))
    (line : ∀ line rest, LF ∉ line → rest ≠ [] → motive rest →
      motive (line ++ LF :: rest)) (body : List UInt8) : motive body := by
  induction hsize : body.length using Nat.strong_induction_on generalizing body with
  | _ size ih =>
      by_cases ended : LF ∈ body
      · obtain ⟨front, rest, rfl, hfree⟩ := List.eq_append_cons_of_mem ended
        rw [List.length_append, List.length_cons] at hsize
        cases rest with
        | nil => exact last front hfree
        | cons next rest =>
            exact line front _ hfree (List.cons_ne_nil _ _)
              (ih _ (by omega) (next :: rest) rfl)
      · exact free body ended

theorem replaceCRLF_ne_nil {body : List UInt8} (more : body ≠ []) :
    replaceCRLF body ≠ [] := by
  unfold replaceCRLF
  split
  · exact absurd rfl more
  · simp
  · split <;> simp

/-- The body as it is compared with the slot is its lines, each with an LF. -/
theorem normalise_eq_bodyLines (body : List UInt8) :
    normalise body = (bodyLines body).flatMap fun line => line ++ [LF] := by
  induction body using body_induction with
  | free body free =>
      have hlast : body.getLast? ≠ some LF := fun ends =>
        free (List.mem_of_getLast? ends)
      rw [bodyLines_free free, normalise, replaceCRLF_free free, if_neg hlast]
      simp
  | last line free =>
      rw [bodyLines_last free, normalise, replaceCRLF_line free]
      simp [replaceCRLF]
  | line line rest free more ih =>
      have hlast : (dropCR line ++ LF :: replaceCRLF rest).getLast? =
          (replaceCRLF rest).getLast? := by
        rw [List.getLast?_append_of_ne_nil _ (List.cons_ne_nil _ _),
          List.getLast?_cons_of_ne_nil (replaceCRLF_ne_nil more)]
      rw [bodyLines_line free more, List.flatMap_cons, ← ih, normalise, normalise,
        replaceCRLF_line free]
      simp only [hlast]
      split <;> simp

theorem bodyLines_unbroken (body : List UInt8) :
    ∀ line ∈ bodyLines body, LF ∉ line := by
  have hdrop : ∀ line : List UInt8, LF ∉ line → LF ∉ dropCR line := by
    intro line free
    unfold dropCR
    split
    · exact fun member => free (List.dropLast_subset line member)
    · exact free
  induction body using body_induction with
  | free body free => simpa [bodyLines_free free] using free
  | last line free => simpa [bodyLines_last free] using hdrop line free
  | line line rest free more ih =>
      rw [bodyLines_line free more]
      intro other member
      rcases List.mem_cons.mp member with rfl | later
      · exact hdrop line free
      · exact ih other later

theorem getLast?_normalise (body : List UInt8) :
    (normalise body).getLast? = some LF := by
  unfold normalise
  by_cases ends : (replaceCRLF body).getLast? = some LF
  · rw [if_pos ends]
    exact ends
  · rw [if_neg ends, List.getLast?_concat]

theorem normalise_length (body : List UInt8) :
    (normalise body).length =
      ((bodyLines body).map fun line => line.length + 1).sum := by
  rw [normalise_eq_bodyLines, List.length_flatMap]
  simp

/-- The LFs that end the lines are all the LFs there are. -/
theorem splitOn_lines_append {lines : List (List UInt8)}
    (unbroken : ∀ line ∈ lines, LF ∉ line) (behind : List UInt8) :
    ((lines.flatMap fun line => line ++ [LF]) ++ behind).splitOn LF =
      lines ++ behind.splitOn LF := by
  induction lines with
  | nil => rfl
  | cons line lines ih =>
      have hlater := ih fun other member =>
        unbroken other (List.mem_cons_of_mem _ member)
      rw [List.flatMap_cons, List.append_assoc, List.append_assoc,
        List.singleton_append,
        splitOn_line (unbroken line List.mem_cons_self), hlater]
      rfl

theorem splitOn_terminated (text : List UInt8) :
    (text ++ [LF]).splitOn LF = text.splitOn LF ++ [[]] :=
  List.splitOn_append_cons_self text []

/-- The three shapes of the padding: nothing, an empty line, or a comment. -/
theorem splitOn_padding (pad : Nat) :
    ∃ further, (padding pad).splitOn LF = further ++ [[]] ∧
      further.length ≤ 1 ∧ ∀ line ∈ further,
        line = [] ∨ ∃ count, line = 0x7c :: List.replicate count 0x20 := by
  unfold padding
  by_cases one : pad = 1
  · rw [if_pos one]
    exact ⟨[[]], rfl, le_rfl, by simp⟩
  · rw [if_neg one]
    by_cases more : 2 ≤ pad
    · rw [if_pos more, splitOn_terminated]
      refine ⟨_, rfl, ?_, ?_⟩
      all_goals
        rw [List.splitOn_eq_singleton (by simp [LF, List.mem_replicate])]
      · exact le_rfl
      · intro line member
        exact Or.inr ⟨pad - 2, List.mem_singleton.mp member⟩
    · rw [if_neg more]
      exact ⟨[], rfl, Nat.zero_le 1, by simp⟩

/--
A patched script holds the lines of the body and at most one further line,
empty or a comment without words; and only a wrong prefix or a body whose lines
are too long, each with its LF, is refused.
-/
theorem patched_script (image : List UInt8) (off length : Nat)
    (body expected : List UInt8) :
    (∀ pad left,
      patchInPlace image off length body expected = .ok (pad, left) →
        (slice left off (off + length)).length = length ∧
        ∃ further,
          (slice left off (off + length)).splitOn LF =
            bodyLines body ++ further ++ [[]] ∧
          further.length ≤ 1 ∧ ∀ line ∈ further,
            line = [] ∨ ∃ count, line = 0x7c :: List.replicate count 0x20) ∧
      patchInPlace image off length body expected ≠ .error .assertionError ∧
      ((∃ result, patchInPlace image off length body expected = .ok result) ↔
        expected <+: slice image off (off + length) ∧
          ((bodyLines body).map fun line => line.length + 1).sum ≤ length) := by
  refine ⟨?_, ?_, ?_⟩
  · intro pad left accepted
    obtain ⟨-, -, hfits, rfl⟩ := patchInPlace_eq_ok_iff.mp accepted
    have hwritten : (normalise body ++ padding pad).length = length := by
      rw [List.length_append, padding_length, hfits]
    have hslot := slice_writeAt image off (normalise body ++ padding pad)
    rw [hwritten] at hslot
    rw [Int.toNat_natCast, hslot]
    obtain ⟨further, hsplit, hfew, hshape⟩ := splitOn_padding pad
    refine ⟨hwritten, further, ?_, hfew, hshape⟩
    rw [normalise_eq_bodyLines, splitOn_lines_append (bodyLines_unbroken body),
      hsplit, List.append_assoc]
  · unfold patchInPlace
    rw [if_neg (by omega)]
    by_cases matching : expected <+: slice image off (off + length)
    · by_cases long : (normalise body).length > length
      · simp [matching, long]
      · have hfilled : (normalise body ++
            padding (length - (normalise body).length)).length = length := by
          rw [List.length_append, padding_length]
          omega
        simp [matching, long, hfilled]
    · simp [matching]
  · rw [patchInPlace_isOk_iff, ← normalise_length]
    constructor
    · intro accepts
      exact ⟨accepts.matching, accepts.fits⟩
    · rintro ⟨matching, fits⟩
      exact ⟨Int.natCast_nonneg off, matching, fits⟩

/-- The slot `A`, LF, `B`, LF, `|`, LF that the body `A`, CR, LF, `B` makes. -/
def scriptSlot : List UInt8 := [65, LF, 66, LF, 0x7c, LF]

/-- A slot of six bytes that takes two lines, the first ended by CR and LF. -/
theorem patched_script_comment :
    bodyLines [65, CR, LF, 66] = [[65], [66]] ∧
      (slice scriptSlot 0 (0 + 6)).length = 6 ∧
      ∃ further,
        (slice scriptSlot 0 (0 + 6)).splitOn LF =
          bodyLines [65, CR, LF, 66] ++ further ++ [[]] ∧
        further.length ≤ 1 ∧ ∀ line ∈ further,
          line = [] ∨ ∃ count, line = 0x7c :: List.replicate count 0x20 :=
  ⟨by decide, (patched_script (List.replicate 6 0) 0 6 [65, CR, LF, 66] []).1 2
    scriptSlot (by decide)⟩

end RiscosBuilder.FileCore
