import Mathlib.Algebra.Ring.Nat
import RiscosBuilder.Library.ByteImage
import RiscosBuilder.Library.FileImage

/-!
# Tar archives

An archive of regular files, as a stream writer leaves it: each member is a
header block and its data, filled up to whole blocks; two blocks of zeros end
the archive, and zeros fill it up to whole records.
-/

namespace RiscosBuilder.Library.Tar

open RiscosBuilder.Library.ByteImage RiscosBuilder.Library.FileImage

def BLOCKSIZE : Nat := 512
def RECORDSIZE : Nat := 20 * BLOCKSIZE

/-- What a header block says of its member. -/
structure Info where
  name : List UInt8
  size : Nat
  deriving DecidableEq, Repr

/-- The data of a member with the zeros behind it. -/
def paddedSize (size : Nat) : Nat :=
  (size + (BLOCKSIZE - 1)) / BLOCKSIZE * BLOCKSIZE

/-- A member, with a header block that `frombuf` can read. -/
structure Member (frombuf : List UInt8 → Info) where
  header : List UInt8
  data : List UInt8
  header_length : header.length = BLOCKSIZE
  header_ne : header ≠ zeros BLOCKSIZE
  header_size : (frombuf header).size = data.length

variable {frombuf : List UInt8 → Info}

def Member.bytes (member : Member frombuf) : List UInt8 :=
  member.header ++ member.data ++
    zeros (paddedSize member.data.length - member.data.length)

/-- How many blocks a member takes. -/
def Member.blocks (member : Member frombuf) : Nat :=
  1 + (member.data.length + (BLOCKSIZE - 1)) / BLOCKSIZE

def contents (members : List (Member frombuf)) : List UInt8 :=
  members.flatMap Member.bytes

def blocks (members : List (Member frombuf)) : Nat :=
  (members.map Member.blocks).sum

/-- The zeros behind the two that end the archive. -/
def filling (written : Nat) : Nat :=
  if written % RECORDSIZE = 0 then 0 else RECORDSIZE - written % RECORDSIZE

/-- The archive of some members. -/
def archive (members : List (Member frombuf)) : List UInt8 :=
  contents members ++ zeros (2 * BLOCKSIZE) ++
    zeros (filling ((contents members).length + 2 * BLOCKSIZE))

theorem paddedSize_le (size : Nat) : size ≤ paddedSize size := by
  unfold paddedSize BLOCKSIZE
  omega

theorem Member.bytes_length (member : Member frombuf) :
    member.bytes.length = BLOCKSIZE + paddedSize member.data.length := by
  have hle := paddedSize_le member.data.length
  simp only [bytes, zeros, List.length_append, List.length_replicate,
    member.header_length]
  omega

theorem Member.bytes_length_eq (member : Member frombuf) :
    member.bytes.length = BLOCKSIZE * member.blocks := by
  rw [bytes_length, blocks, paddedSize, Nat.mul_add, Nat.mul_one, Nat.mul_comm]

theorem contents_length (members : List (Member frombuf)) :
    (contents members).length = BLOCKSIZE * blocks members := by
  induction members with
  | nil => rfl
  | cons member members ih =>
      rw [contents, List.flatMap_cons, List.length_append,
        member.bytes_length_eq]
      rw [contents] at ih
      rw [ih, blocks, blocks, List.map_cons, List.sum_cons, Nat.mul_add]

theorem archive_length (members : List (Member frombuf)) :
    (archive members).length =
      (contents members).length + 2 * BLOCKSIZE +
        filling ((contents members).length + 2 * BLOCKSIZE) := by
  simp [archive, zeros, Nat.add_assoc]

/-- The records that hold the first bytes of a stream. -/
def records (upto : Nat) : Nat :=
  (upto + (RECORDSIZE - 1)) / RECORDSIZE

theorem records_mono {early late : Nat} (order : early ≤ late) :
    records early ≤ records late := by
  unfold records
  exact Nat.div_le_div_right (Nat.add_le_add_right order _)

/-- The records up to the first block of zeros are the whole archive. -/
theorem records_of_room {members : List (Member frombuf)}
    (room : blocks members % 20 ≠ 19) :
    RECORDSIZE * records ((contents members).length + BLOCKSIZE) =
      (archive members).length := by
  rw [archive_length, contents_length]
  unfold records filling RECORDSIZE BLOCKSIZE
  generalize blocks members = count at room ⊢
  split <;> omega

/-- When that block is the last of its record, one record more is behind it. -/
theorem records_of_full {members : List (Member frombuf)}
    (full : blocks members % 20 = 19) :
    (archive members).drop
        (RECORDSIZE * records ((contents members).length + BLOCKSIZE)) =
      zeros RECORDSIZE := by
  have hrecords : RECORDSIZE * records ((contents members).length + BLOCKSIZE) =
      (contents members ++ zeros BLOCKSIZE).length := by
    rw [List.length_append, zeros, List.length_replicate, contents_length]
    unfold records RECORDSIZE BLOCKSIZE
    omega
  have hfilling : BLOCKSIZE + filling ((contents members).length +
      2 * BLOCKSIZE) = RECORDSIZE := by
    rw [contents_length]
    unfold filling RECORDSIZE BLOCKSIZE
    split <;> omega
  have hsplit : archive members = (contents members ++ zeros BLOCKSIZE) ++
      zeros (BLOCKSIZE + filling ((contents members).length + 2 * BLOCKSIZE)) := by
    simp [archive, zeros, Nat.two_mul, ← List.replicate_append_replicate]
  rw [hrecords, hsplit, List.drop_left, hfilling]

theorem records_le_archive (members : List (Member frombuf)) :
    RECORDSIZE * records ((contents members).length + BLOCKSIZE) ≤
      (archive members).length := by
  by_cases full : blocks members % 20 = 19
  · have hlength := congrArg List.length (records_of_full full)
    rw [List.length_drop, zeros, List.length_replicate] at hlength
    unfold RECORDSIZE BLOCKSIZE at hlength ⊢
    omega
  · exact Nat.le_of_eq (records_of_room full)

end RiscosBuilder.Library.Tar
