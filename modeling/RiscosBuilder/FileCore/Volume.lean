import RiscosBuilder.FileCore.Directory
import RiscosBuilder.Library.Loop
import Mathlib.Logic.Function.Basic

/-!
# Volumes

`Volume` of `files/rofilecore.py`: the scan for directory blocks, the walk from
the root that pairs entries with blocks and calibrates fragment bases, and the
lookups made on the result.  The dictionaries `frag_base` and `paths` are the
functions their `get` computes.
-/

namespace RiscosBuilder.FileCore

open RiscosBuilder.Library RiscosBuilder.Library.ByteImage

/-- A path such as `$.!Boot.Loader`. -/
abbrev Path := List UInt8

def ROOT_GUESS_ENTRIES : List (List UInt8) := [ascii "!Boot", ascii "Apps"]

/-- The blocks kept by the scan loop of `Volume.__init__`, from the magics found. -/
def collectDirs (m : List UInt8) : List Nat → Except Failure (List Dir)
  | [] => .ok []
  | i :: others =>
      match parseAt m i, collectDirs m others with
      | .error failure, _ => .error failure
      | .ok _, .error failure => .error failure
      | .ok none, .ok dirs => .ok dirs
      | .ok (some d), .ok dirs =>
          if d.block % SECTOR = 0 then .ok (d :: dirs) else .ok dirs

/-- `self.dirs`. -/
def scanDirs (m : List UInt8) : Except Failure (List Dir) :=
  collectDirs m (occurrences SBPr 0 m)

/-- `self.by_parent.get(addr, [])`. -/
def byParent (dirs : List Dir) (addr : Nat) : List Dir :=
  dirs.filter fun d => d.parent = addr

/-- The directory holds all the usual top-level names. -/
def looksLikeRoot (d : Dir) : Bool :=
  d.name = ascii "$" &&
    ROOT_GUESS_ENTRIES.all fun n => (d.ents.map Entry.name).contains n

/-- `Volume._find_root`. -/
def findRoot (dirs : List Dir) : Option Dir :=
  dirs.foldl (fun best d =>
    if looksLikeRoot d then
      match best with
      | none => some d
      | some b => if d.ents.length > b.ents.length then some d else best
    else best) none

/-- `Volume._note`, on `frag_base`. -/
def note (fragBase : Nat → Option Int) (ind : Nat) (off : Int) :
    Nat → Option Int :=
  match fragBase (ind / 256) with
  | some _ => fragBase
  | none => Function.update fragBase (ind / 256)
      (some (off - (SECTOR * (ind % 256) : Nat)))

/-- What the loop of `Volume._walk` works on; the top of the stack comes first. -/
structure Walk where
  stack : List (Dir × Nat × Path)
  seen : List Nat
  fragBase : Nat → Option Int
  paths : Path → Option Entry

/-- `kids.get(name)`: `setdefault` has kept the first block of that name. -/
def kid (dirs : List Dir) (addr : Nat) (name : List UInt8) : Option Dir :=
  (byParent dirs addr).find? fun c => c.name = name

/-- `path + "." + name`. -/
def join (path : Path) (name : List UInt8) : Path :=
  path ++ 0x2e :: name

/-- One turn of `for e in d.ents`, in the directory at `addr` and `path`. -/
def visitEntry (dirs : List Dir) (addr : Nat) (path : Path) (w : Walk)
    (e : Entry) : Walk :=
  if e.isdir then
    match kid dirs addr e.name with
    | none => w
    | some c =>
        { w with
          fragBase := note w.fragBase e.ind c.block
          paths := Function.update w.paths (join path e.name) (some e)
          stack := (c, e.ind, join path e.name) :: w.stack }
  else { w with paths := Function.update w.paths (join path e.name) (some e) }

/-- One turn of the `while stack` loop. -/
def walkTurn (dirs : List Dir) (w : Walk) : Option Walk :=
  match w.stack with
  | [] => none
  | (d, addr, path) :: stack =>
      if addr ∈ w.seen then some { w with stack }
      else
        some (d.ents.foldl (visitEntry dirs addr path)
          { w with stack, seen := addr :: w.seen })

/-- More turns than the walk takes: every address is expanded at most once. -/
def walkBound (dirs : List Dir) : Nat :=
  ((dirs.map fun d => d.ents.length).sum + 1) ^ 2 + 1

/-- The walk as it enters its loop. -/
def walkStart (root : Dir) : Walk where
  stack := [(root, root.parent, ascii "$")]
  seen := []
  fragBase := note (fun _ => none) root.parent root.block
  paths := fun _ => none

/-- A `Volume` object. -/
structure Volume where
  m : List UInt8
  dirs : List Dir
  fragBase : Nat → Option Int
  paths : Path → Option Entry

namespace Volume

/-- `Volume(path)` for a file or device holding `m`. -/
def load (m : List UInt8) : Except Failure Volume :=
  if m = [] then .error .noSize
  else
    match scanDirs m with
    | .error failure => .error failure
    | .ok dirs =>
        match findRoot dirs with
        | none => .error .noRoot
        | some root =>
            match Loop.run (walkTurn dirs) (walkBound dirs) (walkStart root) with
            | none => .error .unfinished
            | some w => .ok ⟨m, dirs, w.fragBase, w.paths⟩

/-- The volume in an image that holds one. -/
def within (image : List UInt8) : Volume :=
  match load image with
  | .ok v => v
  | .error _ => ⟨[], [], fun _ => none, fun _ => none⟩

theorem load_within {image : List UInt8} (loads : (load image).isOk = true) :
    load image = .ok (within image) := by
  unfold within
  cases loaded : load image with
  | ok v => rfl
  | error failure => simp [loaded, Except.isOk, Except.toBool] at loads

/-- `Volume.offset_of`. -/
def offsetOf (v : Volume) (ent : Entry) : Option Int :=
  (v.fragBase (ent.ind / 256)).map fun base =>
    base + (SECTOR * (ent.ind % 256) : Nat)

/-- `Volume.locate`; an `expect_prefix` of `None` is the empty one. -/
def locate (v : Volume) (path : Path) (expectPrefix : List UInt8) :
    Except Failure (Int × Nat) :=
  match v.paths path with
  | none => .error (.noObject path)
  | some ent =>
      if ent.isdir then .error (.isDirectory path)
      else
        match v.offsetOf ent with
        | some off => .ok (off, ent.length)
        | none =>
            if expectPrefix = [] then
              .error (.uncalibrated path (ent.ind / 256))
            else
              let hits := (occurrences expectPrefix 0 v.m).filter fun i =>
                i % SECTOR = 0
              match hits with
              | [hit] => .ok (hit, ent.length)
              | _ => .error (.copies path (expectPrefix.take 40) hits.length
                  (hits.take 8))

/-- An index of `m[low:high]`, which counts from the end when negative. -/
def sliceIndex (size : Nat) (index : Int) : Nat :=
  if index < 0 then (index + size).toNat else min index.toNat size

/-- `Volume.read`. -/
def read (v : Volume) (path : Path) (expectPrefix : List UInt8) :
    Except Failure (List UInt8) :=
  match v.locate path expectPrefix with
  | .error failure => .error failure
  | .ok (off, length) =>
      .ok (slice v.m (sliceIndex v.m.length off)
        (sliceIndex v.m.length (off + length)))

end Volume

end RiscosBuilder.FileCore
