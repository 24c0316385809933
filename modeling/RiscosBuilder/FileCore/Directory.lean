import RiscosBuilder.Library.ByteImage
import RiscosBuilder.Library.ByteString

/-!
# Directory blocks

`_parse_at` of `files/rofilecore.py`: one FileCore directory block, found by
its `SBPr` magic.  A disc image is a list of bytes, a number unpacked from it
is a natural number below `2 ^ 32`, and a name is the bytes it is made of.
-/

namespace RiscosBuilder.FileCore

open RiscosBuilder.Library RiscosBuilder.Library.ByteImage

def SECTOR : Nat := 512
def ENTRY : Nat := 28

/-- The magic of a directory block. -/
def SBPr : List UInt8 := ascii "SBPr"

/--
How a call of the tool fails: `struct.error`, a failing `assert`, a negative
`seek`, or the several `SystemExit`s with the values their messages show.
-/
inductive Failure where
  | structError
  | assertionError
  | negativeSeek
  /-- cannot determine the size of … -/
  | noSize
  /-- no FileCore root directory found in … -/
  | noRoot
  /-- no such object: … -/
  | noObject (path : List UInt8)
  /-- … is a directory -/
  | isDirectory (path : List UInt8)
  /-- … is in an uncalibrated fragment (&…); pass its first bytes … -/
  | uncalibrated (path : List UInt8) (fragment : Nat)
  /-- …: expected exactly one sector-aligned copy of …, found … (…) -/
  | copies (path expected : List UInt8) (found : Nat) (hits : List Nat)
  /-- refusing to patch at …: expected …, found … -/
  | refused (off : Int) (expected found : List UInt8)
  /-- script is … bytes but the slot is only … -/
  | tooLong (size slot : Nat)
  /-- The walk runs longer than its bound; it never does. -/
  | unfinished
  deriving DecidableEq, Repr

/-- `align4`. -/
def align4 (n : Nat) : Nat :=
  (n + 3) / 4 * 4

/-- One entry of a directory. -/
structure Entry where
  name : List UInt8
  load : Nat
  length : Nat
  ind : Nat
  attr : Nat
  isdir : Bool
  entryOff : Nat
  deriving DecidableEq, Repr

/-- `Dir`. -/
structure Dir where
  mag : Nat
  block : Int
  name : List UInt8
  parent : Nat
  ents : List Entry
  deriving DecidableEq, Repr

/-- `all(32 <= c < 127 for c in name)`. -/
def printable (name : List UInt8) : Bool :=
  name.all fun c => 32 ≤ c.toNat && c.toNat < 127

/-- The entry made from the seven words at `e` and the name they point to. -/
def makeEntry (load length ind attr : Nat) (nm : List UInt8) (e : Nat) : Entry :=
  { name := nm, load, length, ind, attr := attr % 256,
    isdir := attr.testBit 3, entryOff := e }

/-- The `for i in range(entries)` loop of `_parse_at`, with `left` turns to go. -/
def parseEntries (m : List UInt8) (ebase hbase namessize : Nat) :
    Nat → Nat → Except Failure (Option (List Entry))
  | _, 0 => .ok (some [])
  | i, left + 1 =>
      match unpackFrom 7 m (ebase + ENTRY * i) with
      | some [load, _exc, length, ind, attr, nlen, noff] =>
          if nlen > 64 ∨ noff > namessize + 64 then .ok none
          else
            let nm := slice m (hbase + noff) (hbase + noff + nlen)
            if !printable nm then .ok none
            else
              match parseEntries m ebase hbase namessize (i + 1) left with
              | .ok (some ents) =>
                  .ok (some (makeEntry load length ind attr nm
                    (ebase + ENTRY * i) :: ents))
              | other => other
      | _ => .error .structError

/-- `_parse_at`. -/
def parseAt (m : List UInt8) (mag : Nat) : Except Failure (Option Dir) :=
  match unpackFrom 5 m (mag + 4) with
  | some [namelen, size, entries, namessize, parent] =>
      if ¬ (0 < namelen ∧ namelen < 64) ∨ ¬ (0 < entries ∧ entries < 4000) then
        .ok none
      else if ¬ (0 < size ∧ size ≤ 1 <<< 22) then .ok none
      else
        let dirname := slice m (mag + 24) (mag + 24 + namelen)
        if !printable dirname then .ok none
        else
          let ebase := mag + 24 + align4 (namelen + 1)
          let hbase := ebase + ENTRY * entries
          if hbase + namessize > m.length then .ok none
          else
            match parseEntries m ebase hbase namessize 0 entries with
            | .ok (some ents) =>
                .ok (some ⟨mag, (mag : Int) - 4, dirname, parent, ents⟩)
            | .ok none => .ok none
            | .error failure => .error failure
  | _ => .ok none

end RiscosBuilder.FileCore
