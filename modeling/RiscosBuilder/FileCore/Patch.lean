import RiscosBuilder.FileCore.BlockFormat
import RiscosBuilder.FileCore.Volume
import RiscosBuilder.Library.FileImage

/-!
# Patching a file in place

`patch_in_place` of `files/rofilecore.py`, and what saving a slot, patching it
and patching the saved bytes back makes of the image.
-/

namespace RiscosBuilder.FileCore

open RiscosBuilder.Library RiscosBuilder.Library.ByteImage
  RiscosBuilder.Library.FileImage

def LF : UInt8 := 0x0a
def CR : UInt8 := 0x0d

/-- `body.replace(b"\r\n", b"\n")`. -/
def replaceCRLF : List UInt8 → List UInt8
  | [] => []
  | [byte] => [byte]
  | byte :: next :: rest =>
      if byte = CR ∧ next = LF then LF :: replaceCRLF rest
      else byte :: replaceCRLF (next :: rest)

/-- The body as it is compared with the slot: line ends LF, and one at the end. -/
def normalise (body : List UInt8) : List UInt8 :=
  let body := replaceCRLF body
  if body.getLast? = some LF then body else body ++ [LF]

/-- What fills a slot behind the body, `pad` bytes of it. -/
def padding (pad : Nat) : List UInt8 :=
  if pad = 1 then [LF]
  else if 2 ≤ pad then 0x7c :: List.replicate (pad - 2) 0x20 ++ [LF]
  else []

/-- `patch_in_place`: the padding it returns, and the image it leaves. -/
def patchInPlace (image : List UInt8) (off : Int) (length : Nat)
    (body expectPrefix : List UInt8) : Except Failure (Nat × List UInt8) :=
  if off < 0 then .error .negativeSeek
  else
    let cur := slice image off.toNat (off.toNat + length)
    if ¬ expectPrefix <+: cur then
      .error (.refused off (expectPrefix.take 40) (cur.take 40))
    else
      let body := normalise body
      if body.length > length then .error (.tooLong body.length length)
      else
        let pad := length - body.length
        let body := body ++ padding pad
        if body.length ≠ length then .error .assertionError
        else .ok (pad, writeAt image off.toNat body)

/-! ## The body as it is compared with the slot -/

theorem replaceCRLF_eq_self {body : List UInt8} (plain : ¬ [CR, LF] <:+: body) :
    replaceCRLF body = body := by
  induction body using replaceCRLF.induct with
  | case1 => rfl
  | case2 byte => rfl
  | case3 byte next rest pair =>
      obtain ⟨rfl, rfl⟩ := pair
      exact absurd ⟨[], rest, rfl⟩ plain
  | case4 byte next rest other ih =>
      rw [replaceCRLF, if_neg other, ih]
      exact fun inside => plain (inside.trans (List.suffix_cons _ _).isInfix)

/-- Nothing that is put behind the rewritten body makes up for a lost CR. -/
theorem of_replaceCRLF_append_eq {body tail : List UInt8}
    (same : replaceCRLF body ++ tail = body) :
    tail = [] ∧ ¬ [CR, LF] <:+: body := by
  induction body using replaceCRLF.induct with
  | case1 =>
      exact ⟨by simpa [replaceCRLF] using same, by simp⟩
  | case2 byte =>
      refine ⟨by simpa [replaceCRLF] using same, fun inside => ?_⟩
      simpa using inside.length_le
  | case3 byte next rest pair ih =>
      rw [replaceCRLF, if_pos pair, List.cons_append, List.cons.injEq,
        pair.1] at same
      exact absurd same.1 (by decide)
  | case4 byte next rest other ih =>
      rw [replaceCRLF, if_neg other, List.cons_append, List.cons.injEq] at same
      obtain ⟨hnil, hplain⟩ := ih same.2
      refine ⟨hnil, fun inside => ?_⟩
      rcases List.infix_cons_iff.mp inside with front | later
      · rw [List.cons_prefix_cons, List.cons_prefix_cons] at front
        exact other ⟨front.1.symm, front.2.1.symm⟩
      · exact hplain later

/-- What makes a patch with saved bytes write those bytes back. -/
theorem normalise_append_eq_iff {saved tail : List UInt8} :
    normalise saved ++ tail = saved ↔
      tail = [] ∧ saved.getLast? = some LF ∧ ¬ [CR, LF] <:+: saved := by
  constructor
  · intro same
    by_cases ends : (replaceCRLF saved).getLast? = some LF
    · rw [normalise, if_pos ends] at same
      obtain ⟨hnil, hplain⟩ := of_replaceCRLF_append_eq same
      rw [replaceCRLF_eq_self hplain] at ends
      exact ⟨hnil, ends, hplain⟩
    · rw [normalise, if_neg ends, List.append_assoc] at same
      have hnil := (of_replaceCRLF_append_eq same).1
      simp at hnil
  · rintro ⟨rfl, ends, hplain⟩
    rw [List.append_nil, normalise, replaceCRLF_eq_self hplain, if_pos ends]

/-! ## Patching, and patching back -/

theorem padding_length (pad : Nat) : (padding pad).length = pad := by
  unfold padding
  split
  · next one => simp [one]
  · split
    · simp only [List.length_append, List.length_cons, List.length_replicate,
        List.length_nil]
      omega
    · simp only [List.length_nil]
      omega

/-- When `patch_in_place` accepts a body, and what it then leaves. -/
theorem patchInPlace_eq_ok_iff {image : List UInt8} {off : Int} {length : Nat}
    {body expected : List UInt8} {pad : Nat} {patched : List UInt8} :
    patchInPlace image off length body expected = .ok (pad, patched) ↔
      0 ≤ off ∧
      expected <+: slice image off.toNat (off.toNat + length) ∧
      (normalise body).length + pad = length ∧
      patched = writeAt image off.toNat (normalise body ++ padding pad) := by
  unfold patchInPlace
  by_cases negative : off < 0
  · simp only [if_pos negative, reduceCtorEq, false_iff]
    omega
  by_cases matching : expected <+: slice image off.toNat (off.toNat + length)
  · by_cases long : (normalise body).length > length
    · simp only [if_neg negative, matching, not_true_eq_false, if_false,
        if_pos long, reduceCtorEq, false_iff]
      omega
    · have hfilled : (normalise body ++
          padding (length - (normalise body).length)).length = length := by
        rw [List.length_append, padding_length]
        omega
      simp only [if_neg negative, matching, not_true_eq_false, if_false,
        if_neg long, hfilled, ne_eq, Except.ok.injEq, Prod.mk.injEq, true_and]
      constructor
      · rintro ⟨rfl, rfl⟩
        exact ⟨by omega, by omega, rfl⟩
      · rintro ⟨-, hpad, rfl⟩
        have hsame : length - (normalise body).length = pad := by omega
        rw [hsame]
        exact ⟨rfl, rfl⟩
  · simp [negative, matching]

/-- A file that lies in the image is read from its slot. -/
theorem Volume.read_of_locate {v : Volume} {path : Path}
    {expected : List UInt8} {off : Int} {length : Nat}
    (located : v.locate path expected = .ok (off, length))
    (positive : 0 ≤ off) (inside : off + length ≤ v.m.length) :
    v.read path expected =
      .ok (slice v.m off.toNat (off.toNat + length)) := by
  have hstart : sliceIndex v.m.length off = off.toNat := by
    unfold sliceIndex
    rw [if_neg (by omega)]
    omega
  have hstop : sliceIndex v.m.length (off + length) = off.toNat + length := by
    unfold sliceIndex
    rw [if_neg (by omega)]
    omega
  rw [Volume.read, located]
  simp only [hstart, hstop]

/--
Saving a slot, patching it and patching the saved bytes back leaves the image
as it was exactly when those bytes end in LF and hold no CR LF.
-/
theorem save_patch_restore {v : Volume} {path : Path}
    {expected : List UInt8} {off : Int} {length : Nat}
    (located : v.locate path expected = .ok (off, length))
    (positive : 0 ≤ off) (inside : off + length ≤ v.m.length)
    {saved : List UInt8} (saves : v.read path expected = .ok saved)
    {body stock : List UInt8} {pad : Nat} {patched : List UInt8}
    (accepted : patchInPlace v.m off length body stock = .ok (pad, patched))
    {script : List UInt8}
    (matching : script <+: slice patched off.toNat (off.toNat + length)) :
    (∃ left, patchInPlace patched off length saved script = .ok (left, v.m)) ↔
      saved.getLast? = some LF ∧ ¬ [CR, LF] <:+: saved := by
  rw [Volume.read_of_locate located positive inside, Except.ok.injEq] at saves
  obtain ⟨-, -, hfits, rfl⟩ := patchInPlace_eq_ok_iff.mp accepted
  have hwritten : (normalise body ++ padding pad).length = length := by
    rw [List.length_append, padding_length, hfits]
  have hsaved : saved.length = length := by
    rw [← saves, slice_length]
    omega
  have hinside : off.toNat + length ≤ v.m.length := by omega
  constructor
  · rintro ⟨left, restored⟩
    obtain ⟨-, -, hback, hsame⟩ := patchInPlace_eq_ok_iff.mp restored
    have hlength : (normalise saved ++ padding left).length = length := by
      rw [List.length_append, padding_length, hback]
    rw [writeAt_writeAt (by rw [hlength, hwritten])
      (by rw [hwritten]; exact hinside)] at hsame
    have hslot := slice_writeAt v.m off.toNat (normalise saved ++ padding left)
    rw [← hsame, hlength, saves] at hslot
    exact (normalise_append_eq_iff.mp hslot.symm).2
  · intro plain
    have hnormal := normalise_append_eq_iff.mpr ⟨rfl, plain⟩
    rw [List.append_nil] at hnormal
    refine ⟨0, patchInPlace_eq_ok_iff.mpr
      ⟨positive, matching, by rw [hnormal, hsaved, Nat.add_zero], ?_⟩⟩
    rw [hnormal, show padding 0 = [] from rfl, List.append_nil,
      writeAt_writeAt (by rw [hsaved, hwritten])
        (by rw [hwritten]; exact hinside), ← saves]
    exact (writeAt_slice hinside).symm

/-- A volume whose root holds `!Boot`, and `Apps` with the given bytes. -/
def appsImage (bytes : List UInt8) : List UInt8 :=
  sectorImage [blockBytes ⟨ascii "$", 256, 256,
    [⟨ascii "!Boot", 0, 0, 0, 512, 3⟩,
      ⟨ascii "Apps", 0, 0, bytes.length, 257, 3⟩]⟩, bytes]

/-- The volume in it. -/
def appsVolume (bytes : List UInt8) : Volume :=
  .within (appsImage bytes)

/-- A slot that holds `A` and LF is restored after two LFs were put into it. -/
theorem save_patch_restore_line :
    ∃ left,
      patchInPlace (writeAt (appsVolume [65, LF]).m 512 [LF, LF]) 512 2
        [65, LF] [] = .ok (left, (appsVolume [65, LF]).m) :=
  (@save_patch_restore (appsVolume [65, LF]) (ascii "$.Apps") [] 512 2
    (by decide +kernel) (by decide) (by decide +kernel) [65, LF]
    (by decide +kernel) [LF] [] 1
    (writeAt (appsVolume [65, LF]).m 512 [LF, LF]) (by decide +kernel)
    [] List.nil_prefix).mpr (by decide)

/--
A slot that holds the single byte `A` takes a patch and then refuses its own
bytes; one that holds `A`, CR and LF takes them back changed.
-/
theorem save_patch_restore_fails :
    Volume.load (appsImage [65]) = .ok (appsVolume [65]) ∧
    (appsVolume [65]).locate (ascii "$.Apps") [] = .ok (512, 1) ∧
    (appsVolume [65]).read (ascii "$.Apps") [] = .ok [65] ∧
    patchInPlace (appsImage [65]) 512 1 [LF] [65] =
      .ok (0, writeAt (appsImage [65]) 512 [LF]) ∧
    patchInPlace (writeAt (appsImage [65]) 512 [LF]) 512 1 [65] [LF] =
      .error (.tooLong 2 1) ∧
    patchInPlace (writeAt (appsImage [65, CR, LF]) 512 [LF, LF, LF]) 512 3
      [65, CR, LF] [LF] =
        .ok (1, writeAt (appsImage [65, CR, LF]) 512 [65, LF, LF]) := by
  refine ⟨?_, ?_⟩
  · exact Volume.load_within (by decide +kernel)
  · decide +kernel

end RiscosBuilder.FileCore
