import RiscosBuilder.Library.ByteImage
import RiscosBuilder.Library.FileImage

/-!
# The downloader

`download` of `build.py` with `_download_chunk`, `_download_resume` and
`_download_single`.  The workers run at the same time, each with a handle of
its own on the one file, so a step is whatever happens next on one connection.
-/

namespace RiscosBuilder.Build

open RiscosBuilder.Library.ByteImage RiscosBuilder.Library.FileImage

def DL_THREADS : Nat := 8
def DL_CHUNK_MIN : Nat := 4 * 1024 * 1024
def DL_BUF : Nat := 1024 * 1024
def DL_ATTEMPTS : Nat := 3

/-- The loop over `i in range(DL_THREADS)`: `count` turns are left. -/
def piecesFrom (size chunk : Nat) : Nat → Nat → List (Nat × Nat)
  | 0, _ => []
  | count + 1, i =>
      if size ≤ i * chunk then []
      else
        (i * chunk, min (i * chunk + chunk) size - 1) ::
          piecesFrom size chunk count (i + 1)

/-- `pieces`: the first and the last byte of each. -/
def pieces (size : Nat) : List (Nat × Nat) :=
  piecesFrom size ((size + DL_THREADS - 1) / DL_THREADS) DL_THREADS 0

/-- What a connection does: `read` returns `b""` when it ends. -/
inductive Served where
  | opens
  | delivers (buf : List UInt8)
  | ends
  | raises
  deriving DecidableEq, Repr

/-! ## The workers -/

/-- Where a call of `_download_chunk` is; in the end it returns or raises. -/
inductive Worker where
  | requesting (attempt : Nat)
  | receiving (attempt written : Nat)
  | finished
  | gaveUp
  deriving DecidableEq, Repr

/-- A call of `_download_chunk(url, fpath, start, end)`. -/
structure Task where
  start : Nat
  stop : Nat
  worker : Worker
  deriving DecidableEq, Repr

/-- `expected`. -/
def Task.expected (task : Task) : Nat :=
  task.stop - task.start + 1

/-- The `except` clause: the next turn of the loop, or `raise last_err`. -/
def nextAttempt (attempt : Nat) : Worker :=
  if attempt + 1 < DL_ATTEMPTS then .requesting (attempt + 1) else .gaveUp

/-- The worker and the file after what the connection does. -/
def Task.step (task : Task) (file : List UInt8) (served : Served) :
    Option (Worker × List UInt8) :=
  match task.worker, served with
  | .requesting attempt, .opens => some (.receiving attempt 0, file)
  | .requesting attempt, .raises => some (nextAttempt attempt, file)
  | .receiving attempt written, .delivers buf =>
      some (.receiving attempt (written + buf.length),
        writeAt file (task.start + written) buf)
  | .receiving attempt written, .ends =>
      if written ≠ task.expected then some (nextAttempt attempt, file)
      else some (.finished, file)
  | .receiving attempt _, .raises => some (nextAttempt attempt, file)
  | _, _ => none

/-! ## The download -/

/--
Where `download` is.  `resuming` and `streaming` are the loop of
`_download_resume` at its test and inside its `with`; `single` is
`_download_single`, before and after its file is open; at `sizing` the size of
the file is checked.
-/
inductive Phase where
  | parallel (tasks : List Task)
  | resuming (got stalls : Nat)
  | streaming (got stalls start : Nat)
  | single (isOpen : Bool)
  | sizing
  | returned
  | exited
  deriving DecidableEq, Repr

/-- The content of `fileout`, and where `download` is. -/
structure Download where
  file : List UInt8
  phase : Phase
  deriving DecidableEq, Repr

/-- The beginning, with what `_http_probe` returned and the file as it was. -/
def begun (probe : Option Nat × Bool) (old : List UInt8) : Download :=
  match probe with
  | (some size, true) =>
      if size < DL_CHUNK_MIN then ⟨old, .single false⟩
      else
        ⟨zeros size, .parallel ((pieces size).map fun piece =>
          ⟨piece.1, piece.2, .requesting 0⟩)⟩
  | _ => ⟨old, .single false⟩

/-- The test of `while got < total`. -/
def resumeAt (total got stalls : Nat) : Phase :=
  if got < total then .resuming got stalls else .sizing

/-- What follows the `try` statement of `_download_resume`. -/
def settle (total got stalls start : Nat) : Phase :=
  if start < got then resumeAt total got 0
  else if DL_ATTEMPTS ≤ stalls + 1 then .exited
  else resumeAt total got (stalls + 1)

/-- What happens next: to a worker's connection, or to the only one there is. -/
inductive Event where
  | worker (i : Nat) (served : Served)
  | joined
  | stream (served : Served)
  | sized (known : Bool)
  deriving DecidableEq, Repr

/-- What the one connection of `_download_resume` or `_download_single` does. -/
def Download.stream (size : Nat) (state : Download) (served : Served) :
    Option Download :=
  match state.phase, served with
  | .resuming got stalls, .opens =>
      some { state with phase := .streaming got stalls got }
  | .resuming got stalls, .raises =>
      some { state with phase := settle size got stalls got }
  | .streaming got stalls start, .delivers buf =>
      some ⟨writeAt state.file got buf, .streaming (got + buf.length) stalls start⟩
  | .streaming got stalls start, .ends =>
      some { state with phase := settle size got stalls start }
  | .streaming got stalls start, .raises =>
      some { state with phase := settle size got stalls start }
  | .single false, .opens => some ⟨[], .single true⟩
  | .single true, .delivers buf => some ⟨state.file ++ buf, .single true⟩
  | .single true, .ends => some { state with phase := .returned }
  | .single _, .raises => some { state with phase := .exited }
  | _, _ => none

/-- A step of `download`; `none` when the event cannot happen. -/
def Download.step (size : Nat) (state : Download) : Event → Option Download
  | .worker i served =>
      match state.phase with
      | .parallel tasks =>
          tasks[i]?.bind fun task =>
            (task.step state.file served).map fun after =>
              ⟨after.2, .parallel (tasks.set i { task with worker := after.1 })⟩
      | _ => none
  | .joined =>
      match state.phase with
      | .parallel tasks =>
          if ∀ task ∈ tasks, task.worker = .finished then
            some { state with phase := .sizing }
          else if ∀ task ∈ tasks,
              task.worker = .finished ∨ task.worker = .gaveUp then
            -- The size is known and ranges are supported whenever there are
            -- workers, so the other retry is not reached.
            some ⟨[], resumeAt size 0 0⟩
          else none
      | _ => none
  | .stream served => state.stream size served
  | .sized known =>
      match state.phase with
      | .sizing =>
          some { state with
            phase := if known = true ∧ state.file.length ≠ size then .exited
              else .returned }
      | _ => none

/-! ## The server -/

/-- What is left of the range that the worker has asked for. -/
def Task.asked (task : Task) (resource : List UInt8) : List UInt8 :=
  match task.worker with
  | .receiving _ written =>
      slice resource (task.start + written) (task.stop + 1)
  | _ => []

/-- What is left of what the connection of the event was asked for. -/
def Download.asked (state : Download) (resource : List UInt8) :
    Event → List UInt8
  | .worker i _ =>
      match state.phase with
      | .parallel tasks => (tasks[i]?.map fun task => task.asked resource).getD []
      | _ => []
  | .stream _ =>
      match state.phase with
      | .streaming got _ _ => resource.drop got
      | .single _ => resource.drop state.file.length
      | _ => []
  | _ => []

/-- The bytes that come with an event. -/
def Event.delivered : Event → Option (List UInt8)
  | .worker _ (.delivers buf) => some buf
  | .stream (.delivers buf) => some buf
  | _ => none

/-- What is delivered is the next part of what was asked for. -/
def Serves (resource : List UInt8) (state : Download) (event : Event) : Prop :=
  ∀ buf, event.delivered = some buf →
    buf ≠ [] ∧ buf.length ≤ DL_BUF ∧ buf <+: state.asked resource event

/-- The states that some run gets to, whatever the order of what happens. -/
inductive Reachable (resource : List UInt8) (start : Download) : Download → Prop
  | refl : Reachable resource start start
  | step {state after : Download} {event : Event}
      (reachable : Reachable resource start state)
      (serves : Serves resource state event)
      (steps : state.step resource.length event = some after) :
      Reachable resource start after

end RiscosBuilder.Build
