import RiscosBuilder.Agent.PushFailure
import RiscosBuilder.Library.Tar

/-!
# How an archive is read

What `tarfile` in mode `r|` asks of the channel for an archive: whole records,
until it knows the first header block that is all zeros.
-/

namespace RiscosBuilder.Agent

open RiscosBuilder.Library RiscosBuilder.Library.Tar
open RiscosBuilder.Library.ByteImage RiscosBuilder.Library.FileImage

/-- The reads after which the bytes up to `upto` are known as well. -/
def recordReads (known upto : Nat) : List TarStep :=
  List.replicate (records upto - records known) (.read RECORDSIZE)

/--
The iteration over the members: the header block at `pos` is read, its member
is delivered, and the data is read; a block of zeros ends it.
-/
def tarSteps (frombuf : List UInt8 → Info) (stream : List UInt8) :
    Nat → Nat → List TarStep
  | 0, _ => []
  | fuel + 1, pos =>
      let header := slice stream pos (pos + BLOCKSIZE)
      if header = zeros BLOCKSIZE then recordReads pos (pos + BLOCKSIZE)
      else
        let next := pos + BLOCKSIZE + paddedSize (frombuf header).size
        recordReads pos (pos + BLOCKSIZE) ++
          .member (frombuf header).name ::
            (recordReads (pos + BLOCKSIZE) next ++
              tarSteps frombuf stream fuel next)

/-- `tarfile` on a stream from its beginning; no stream has more members. -/
def untar (frombuf : List UInt8 → Info) (stream : List UInt8) : Extraction :=
  .tar (tarSteps frombuf stream stream.length 0) false

@[simp] theorem wanted_append (first second : List TarStep) :
    wanted (first ++ second) = wanted first + wanted second := by
  induction first with
  | nil => simp [wanted]
  | cons step first ih =>
      cases step with
      | read want =>
          simp only [List.cons_append, wanted, ih]
          omega
      | member name => exact ih

theorem wanted_recordReads {known upto : Nat} (order : known ≤ upto) :
    RECORDSIZE * records known + wanted (recordReads known upto) =
      RECORDSIZE * records upto := by
  have hwanted : ∀ count, wanted (List.replicate count (.read RECORDSIZE)) =
      RECORDSIZE * count := by
    intro count
    induction count with
    | zero => rfl
    | succ count ih =>
        rw [List.replicate_succ, wanted, ih, Nat.mul_succ, Nat.add_comm]
  have hle := records_mono order
  rw [recordReads, hwanted, ← Nat.mul_add, Nat.add_sub_cancel' hle]

variable {frombuf : List UInt8 → Info}

/-- The iteration ends at a header block of zeros. -/
theorem tarSteps_zeros (front rest : List UInt8) (fuel : Nat) :
    tarSteps frombuf (front ++ zeros BLOCKSIZE ++ rest) (fuel + 1)
        front.length =
      recordReads front.length (front.length + BLOCKSIZE) := by
  have hheader : slice (front ++ zeros BLOCKSIZE ++ rest) front.length
      (front.length + BLOCKSIZE) = zeros BLOCKSIZE := by
    have hmiddle := slice_append_middle front (zeros BLOCKSIZE) rest
    rwa [zeros, List.length_replicate] at hmiddle
  rw [tarSteps]
  dsimp only
  rw [hheader, if_pos rfl]

/-- A member is delivered behind its header block, and its data is read. -/
theorem tarSteps_member (member : Member frombuf) (front rest : List UInt8)
    (fuel : Nat) :
    tarSteps frombuf (front ++ member.bytes ++ rest) (fuel + 1) front.length =
      recordReads front.length (front.length + BLOCKSIZE) ++
        .member (frombuf member.header).name ::
          (recordReads (front.length + BLOCKSIZE) (front ++ member.bytes).length ++
            tarSteps frombuf (front ++ member.bytes ++ rest) fuel
              (front ++ member.bytes).length) := by
  have hheader : slice (front ++ member.bytes ++ rest) front.length
      (front.length + BLOCKSIZE) = member.header := by
    have hmiddle := slice_append_middle front member.header
      (member.data ++
        zeros (paddedSize member.data.length - member.data.length) ++ rest)
    rw [member.header_length] at hmiddle
    simpa [Member.bytes] using hmiddle
  have hnext : front.length + BLOCKSIZE + paddedSize member.data.length =
      (front ++ member.bytes).length := by
    rw [List.length_append, member.bytes_length, Nat.add_assoc]
  rw [tarSteps]
  dsimp only
  rw [hheader, if_neg member.header_ne, member.header_size, hnext]

/-- All the reads together are the records up to the first block of zeros. -/
theorem wanted_tarSteps (members : List (Member frombuf))
    {front rest : List UInt8} {fuel : Nat} (enough : members.length < fuel) :
    RECORDSIZE * records front.length +
        wanted (tarSteps frombuf
          (front ++ contents members ++ zeros BLOCKSIZE ++ rest) fuel
          front.length) =
      RECORDSIZE * records (front.length + (contents members).length +
        BLOCKSIZE) := by
  induction members generalizing front fuel with
  | nil =>
      obtain ⟨fuel, rfl⟩ := Nat.exists_eq_succ_of_ne_zero (Nat.ne_of_gt enough)
      have hstop := wanted_recordReads (Nat.le_add_right front.length BLOCKSIZE)
      rw [contents, List.flatMap_nil, List.append_nil, tarSteps_zeros,
        List.length_nil, Nat.add_zero]
      exact hstop
  | cons member members ih =>
      obtain ⟨fuel, rfl⟩ := Nat.exists_eq_succ_of_ne_zero (Nat.ne_of_gt
        (Nat.zero_lt_of_lt enough))
      have hstream : front ++ contents (member :: members) ++ zeros BLOCKSIZE ++
          rest = front ++ member.bytes ++
            (contents members ++ zeros BLOCKSIZE ++ rest) := by
        simp [contents]
      have hlast : front.length + (contents (member :: members)).length =
          (front ++ member.bytes).length + (contents members).length := by
        simp [contents, Nat.add_assoc]
      have hlater := @ih (front ++ member.bytes) fuel
        (Nat.lt_of_succ_lt_succ enough)
      have hhead := wanted_recordReads (Nat.le_add_right front.length BLOCKSIZE)
      have hdata := @wanted_recordReads (front.length + BLOCKSIZE)
        (front ++ member.bytes).length (by
          rw [List.length_append, member.bytes_length]
          omega)
      rw [hstream, tarSteps_member, hlast, wanted_append, wanted, wanted_append]
      rw [List.append_assoc _ (contents members), List.append_assoc _
        (contents members ++ zeros BLOCKSIZE)] at hlater
      omega

theorem members_length_lt (members : List (Member frombuf)) (rest : List UInt8) :
    members.length < (archive members ++ rest).length := by
  have hle : members.length ≤ blocks members := by
    induction members with
    | nil => exact Nat.zero_le _
    | cons member members ih =>
        have hpositive : 1 ≤ member.blocks := Nat.le_add_right _ _
        simp only [blocks, List.map_cons, List.sum_cons, List.length_cons] at ih ⊢
        omega
  rw [List.length_append, archive_length, contents_length]
  unfold BLOCKSIZE
  omega

/-- What `tarfile` asks for when it reads an archive. -/
theorem wanted_untar (members : List (Member frombuf)) (rest : List UInt8) :
    wanted (tarSteps frombuf (archive members ++ rest)
        (archive members ++ rest).length 0) =
      RECORDSIZE * records ((contents members).length + BLOCKSIZE) := by
  have hstream : archive members ++ rest = [] ++ contents members ++
      zeros BLOCKSIZE ++ (zeros BLOCKSIZE ++
        zeros (filling ((contents members).length + 2 * BLOCKSIZE)) ++ rest) := by
    simp [archive, zeros, Nat.two_mul, ← List.replicate_append_replicate]
  have hwanted := @wanted_tarSteps frombuf members []
    (zeros BLOCKSIZE ++
      zeros (filling ((contents members).length + 2 * BLOCKSIZE)) ++ rest) _
    (members_length_lt members rest)
  rw [← hstream] at hwanted
  simpa [records, RECORDSIZE, BLOCKSIZE] using hwanted

end RiscosBuilder.Agent
