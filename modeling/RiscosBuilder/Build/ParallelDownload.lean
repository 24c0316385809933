import Mathlib.Algebra.Ring.Nat
import RiscosBuilder.Build.Download
import RiscosBuilder.Library.Tiling

/-!
# The workers put the resource together

The pieces tile the resource, and every worker writes into its own only.  So a
worker that has returned has left its piece right, whatever the others did
meanwhile, and when one has given up the file is begun anew.
-/

namespace RiscosBuilder.Build

open RiscosBuilder.Library.ByteImage RiscosBuilder.Library.FileImage
open RiscosBuilder.Library.Tiling

/-! ## The pieces -/

theorem piecesFrom_tiles {size chunk : Nat} (positive : 0 < chunk) (count i : Nat)
    (enough : size ≤ (i + count) * chunk) :
    Tiles size (min (i * chunk) size) (piecesFrom size chunk count i) := by
  induction count generalizing i with
  | zero => exact Nat.min_eq_right enough
  | succ count ih =>
      rw [piecesFrom]
      split
      · next beyond => exact Nat.min_eq_right beyond
      · next inside =>
          have hnext : (i + 1) * chunk = i * chunk + chunk := Nat.succ_mul i chunk
          have hlater := ih (i + 1) (by
            rwa [Nat.add_assoc, Nat.add_comm 1 count])
          rw [hnext] at hlater
          refine ⟨by omega, by omega, ?_⟩
          have hplace : min (i * chunk + chunk) size - 1 + 1 =
              min (i * chunk + chunk) size := by omega
          rwa [hplace]

theorem pieces_tiles {size : Nat} (positive : 0 < size) :
    Tiles size 0 (pieces size) := by
  have hchunk : 0 < (size + DL_THREADS - 1) / DL_THREADS := by
    unfold DL_THREADS
    omega
  have henough : size ≤ (0 + DL_THREADS) *
      ((size + DL_THREADS - 1) / DL_THREADS) := by
    unfold DL_THREADS
    omega
  have htiles := piecesFrom_tiles hchunk DL_THREADS 0 henough
  rwa [Nat.zero_mul, Nat.min_eq_left (Nat.zero_le _)] at htiles

/-- A large resource keeps all the workers busy. -/
theorem pieces_length {size : Nat} (large : DL_CHUNK_MIN ≤ size) :
    (pieces size).length = DL_THREADS := by
  have hall : ∀ count i, i + count ≤ DL_THREADS →
      (piecesFrom size ((size + DL_THREADS - 1) / DL_THREADS) count i).length =
        count := by
    intro count
    induction count with
    | zero => exact fun i _ => rfl
    | succ count ih =>
        intro i within
        have hlow : i * ((size + DL_THREADS - 1) / DL_THREADS) ≤
            7 * ((size + DL_THREADS - 1) / DL_THREADS) :=
          Nat.mul_le_mul_right _ (by unfold DL_THREADS at within; omega)
        have hinside : ¬ size ≤
            i * ((size + DL_THREADS - 1) / DL_THREADS) := by
          unfold DL_THREADS DL_CHUNK_MIN at *
          omega
        rw [piecesFrom, if_neg hinside, List.length_cons, ih (i + 1) (by omega)]
  exact hall DL_THREADS 0 (Nat.le_refl _)

/-! ## One worker -/

/-- The piece of a worker. -/
def Task.region (task : Task) : Nat × Nat :=
  (task.start, task.stop)

/-- What a worker has written is right. -/
def Task.Good (resource file : List UInt8) (task : Task) : Prop :=
  match task.worker with
  | .receiving _ written =>
      task.start + written ≤ task.stop + 1 ∧
        Agree file resource task.start (task.start + written)
  | .finished => Agree file resource task.start (task.stop + 1)
  | _ => True

theorem nextAttempt_good (resource file : List UInt8) (start stop attempt : Nat) :
    Task.Good resource file ⟨start, stop, nextAttempt attempt⟩ := by
  unfold nextAttempt
  split <;> exact trivial

section Worker

variable {resource file : List UInt8} {task : Task} {served : Served}
  {after : Worker × List UInt8}

/-- What is delivered to a worker goes into its own piece. -/
theorem Task.write_keeps {start stop attempt written : Nat} {buf : List UInt8}
    (within : stop < file.length)
    (good : Task.Good resource file ⟨start, stop, .receiving attempt written⟩)
    (asked : buf <+: slice resource (start + written) (stop + 1)) :
    (writeAt file (start + written) buf).length = file.length ∧
      (∀ i, ¬ Inside (start, stop) i →
        (writeAt file (start + written) buf)[i]? = file[i]?) ∧
      Task.Good resource (writeAt file (start + written) buf)
        ⟨start, stop, .receiving attempt (written + buf.length)⟩ := by
  obtain ⟨hroom, hagree⟩ := good
  simp only at hroom hagree
  have hlength : start + written + buf.length ≤ stop + 1 := by
    have hle := asked.length_le
    rw [slice_length] at hle
    omega
  have hnext : buf <+: resource.drop (start + written) :=
    asked.trans (List.take_prefix _ _)
  refine ⟨writeAt_length (by omega), fun i outside => ?_, ?_, ?_⟩
  · have hplace : i < start + written ∨ start + written + buf.length ≤ i := by
      simp only [Inside] at outside
      omega
    exact writeAt_outside (by omega) hplace
  · simp only
    omega
  · simp only
    rw [← Nat.add_assoc]
    exact hagree.write_next (by omega) hnext

theorem Task.step_keeps (order : task.start ≤ task.stop)
    (within : task.stop < file.length) (good : task.Good resource file)
    (serves : ∀ buf, served = .delivers buf → buf <+: task.asked resource)
    (steps : task.step file served = some after) :
    after.2.length = file.length ∧
      (∀ i, ¬ Inside task.region i → after.2[i]? = file[i]?) ∧
      Task.Good resource after.2 { task with worker := after.1 } := by
  obtain ⟨start, stop, worker⟩ := task
  simp only at order within
  cases worker with
  | requesting attempt =>
      cases served <;> simp only [step, Option.some.injEq, reduceCtorEq] at steps
      · subst steps
        refine ⟨rfl, fun _ _ => rfl, by simp only; omega, ?_⟩
        exact Agree.empty _ _ _
      · subst steps
        exact ⟨rfl, fun _ _ => rfl, nextAttempt_good resource file _ _ _⟩
  | receiving attempt written =>
      cases served with
      | opens => simp [step] at steps
      | delivers buf =>
          simp only [step, Option.some.injEq] at steps
          subst steps
          exact Task.write_keeps within good (serves buf rfl)
      | ends =>
          simp only [step] at steps
          split at steps
          · rw [Option.some.injEq] at steps
            subst steps
            exact ⟨rfl, fun _ _ => rfl, nextAttempt_good resource file _ _ _⟩
          · next short =>
              have hwhole : written = stop - start + 1 := not_not.mp short
              rw [Option.some.injEq] at steps
              subst steps
              refine ⟨rfl, fun _ _ => rfl, ?_⟩
              exact good.2.mono (Nat.le_refl _) (by simp only; omega)
      | raises =>
          simp only [step, Option.some.injEq] at steps
          subst steps
          exact ⟨rfl, fun _ _ => rfl, nextAttempt_good resource file _ _ _⟩
  | finished => cases served <;> simp [step] at steps
  | gaveUp => cases served <;> simp [step] at steps

/-- A worker's piece is left alone by what is written elsewhere. -/
theorem Task.Good.other {other : List UInt8} (good : task.Good resource file)
    (same : ∀ i, Inside task.region i → other[i]? = file[i]?) :
    task.Good resource other := by
  obtain ⟨start, stop, worker⟩ := task
  have hagree : ∀ upto ≤ stop + 1, Agree file resource start upto →
      Agree other resource start upto := by
    intro upto hupto agree i low high
    rw [same i ⟨low, by simp only [region]; omega⟩]
    exact agree i low high
  cases worker with
  | requesting attempt => exact trivial
  | receiving attempt written =>
      exact ⟨good.1, hagree _ good.1 good.2⟩
  | finished => exact hagree _ (Nat.le_refl _) good
  | gaveUp => exact trivial

end Worker

/-! ## All of the download -/

/-- The workers have the pieces, and have written nothing that is wrong. -/
structure Working (resource file : List UInt8) (tasks : List Task) : Prop where
  length : file.length = resource.length
  regions : tasks.map Task.region = pieces resource.length
  good : ∀ (i : Nat) (task : Task), tasks[i]? = some task →
    task.Good resource file

/-- What the file holds at each place of `download`. -/
def Sound (resource : List UInt8) (state : Download) : Prop :=
  match state.phase with
  | .parallel tasks => Working resource state.file tasks
  | .resuming got _ =>
      got ≤ resource.length ∧ state.file = resource.take got
  | .streaming got _ _ =>
      got ≤ resource.length ∧ state.file = resource.take got
  | .single _ => False
  | .sizing => state.file = resource
  | .returned => state.file = resource
  | .exited => True

section Steps

variable {resource file : List UInt8} {tasks : List Task}
  {state after : Download}

theorem Working.region (working : Working resource file tasks) {i : Nat}
    {task : Task} (found : tasks[i]? = some task) :
    (pieces resource.length)[i]? = some task.region := by
  rw [← working.regions, List.getElem?_map, found]
  rfl

theorem Working.tiles (working : Working resource file tasks)
    (positive : 0 < resource.length) :
    Tiles resource.length 0 (tasks.map Task.region) :=
  working.regions ▸ pieces_tiles positive

/-- One worker's step leaves the others' pieces as they were. -/
theorem Working.step (positive : 0 < resource.length)
    (working : Working resource file tasks) {i : Nat} {task : Task}
    (found : tasks[i]? = some task) {served : Served}
    {next : Worker × List UInt8}
    (serves : ∀ buf, served = .delivers buf → buf <+: task.asked resource)
    (steps : task.step file served = some next) :
    (∀ k, ¬ Inside task.region k → next.2[k]? = file[k]?) ∧
      Working resource next.2
        (tasks.set i { task with worker := next.1 }) := by
  have hregion : (tasks.map Task.region)[i]? = some task.region := by
    rw [List.getElem?_map, found]
    rfl
  obtain ⟨-, order, within⟩ :=
    (working.tiles positive).mem (List.mem_of_getElem? hregion)
  obtain ⟨hlength, houtside, hgood⟩ := task.step_keeps order
    (working.length.symm ▸ within) (working.good i task found) serves steps
  refine ⟨houtside, hlength.trans working.length, ?_, fun j other hother => ?_⟩
  · obtain ⟨within, hsame⟩ := List.getElem?_eq_some_iff.mp hregion
    have hkept : Task.region { task with worker := next.1 } =
        (tasks.map Task.region)[i] := hsame.symm
    rw [← working.regions, List.map_set, hkept, List.set_getElem_self]
  · rw [List.getElem?_set] at hother
    split at hother
    · next same =>
        split at hother
        · rw [Option.some.injEq] at hother
          exact hother ▸ hgood
        · exact absurd hother.symm (Option.some_ne_none other)
    · next apart =>
        refine (working.good j other hother).other fun k inside => ?_
        have hother' : (tasks.map Task.region)[j]? = some other.region := by
          rw [List.getElem?_map, hother]
          rfl
        exact houtside k ((working.tiles positive).disjoint (Ne.symm apart)
          hother' hregion inside)

/-- When every worker has returned, every byte is in its place. -/
theorem Working.complete (positive : 0 < resource.length)
    (working : Working resource file tasks)
    (finished : ∀ task ∈ tasks, task.worker = .finished) : file = resource := by
  refine Agree.eq_of_length (fun k _ high => ?_) working.length
  obtain ⟨region, member, inside⟩ :=
    (working.tiles positive).covers (Nat.zero_le k) high
  obtain ⟨task, htask, rfl⟩ := List.mem_map.mp member
  obtain ⟨i, hi⟩ := List.mem_iff_getElem?.mp htask
  have hgood := working.good i task hi
  rw [Task.Good, finished task htask] at hgood
  exact hgood k inside.1 (Nat.lt_succ_of_le inside.2)

theorem resumeAt_sound {got : Nat} (stalls : Nat) (within : got ≤ resource.length)
    (content : file = resource.take got) :
    Sound resource ⟨file, resumeAt resource.length got stalls⟩ := by
  unfold resumeAt
  split
  · exact ⟨within, content⟩
  · next all =>
      have hgot : file = resource := by
        rw [content, List.take_of_length_le (Nat.not_lt.mp all)]
      exact hgot

theorem settle_sound {got : Nat} (stalls start : Nat)
    (within : got ≤ resource.length) (content : file = resource.take got) :
    Sound resource ⟨file, settle resource.length got stalls start⟩ := by
  unfold settle
  split
  · exact resumeAt_sound 0 within content
  · split
    · exact trivial
    · exact resumeAt_sound (stalls + 1) within content

/-- What is delivered to the one connection goes behind what there is. -/
theorem stream_sound {served : Served} (sound : Sound resource state)
    (serves : Serves resource state (.stream served))
    (steps : state.stream resource.length served = some after) :
    Sound resource after := by
  obtain ⟨file, phase⟩ := state
  cases phase with
  | resuming got stalls =>
      obtain ⟨within, content⟩ := sound
      cases served <;>
        simp only [Download.stream, Option.some.injEq, reduceCtorEq] at steps
      · exact steps ▸ ⟨within, content⟩
      · exact steps ▸ settle_sound stalls got within content
  | streaming got stalls start =>
      obtain ⟨within, content⟩ := sound
      cases served <;>
        simp only [Download.stream, Option.some.injEq, reduceCtorEq] at steps
      · next buf =>
          obtain ⟨-, -, rest, hrest⟩ := serves buf rfl
          simp only [Download.asked] at hrest
          simp only at content
          have hlength : file.length = got := by
            rw [content, List.length_take_of_le within]
          have hgot : got + buf.length ≤ resource.length := by
            have hle := congrArg List.length hrest
            simp only [List.length_append, List.length_drop] at hle
            omega
          subst steps
          refine ⟨hgot, ?_⟩
          have hwrite := writeAt_end file buf
          rw [hlength] at hwrite
          simp only
          rw [hwrite, content, List.take_add, ← hrest, List.take_left]
      · exact steps ▸ settle_sound stalls start within content
      · exact steps ▸ settle_sound stalls start within content
  | single isOpen => exact sound.elim
  | parallel tasks => cases served <;> simp [Download.stream] at steps
  | sizing => cases served <;> simp [Download.stream] at steps
  | returned => cases served <;> simp [Download.stream] at steps
  | exited => cases served <;> simp [Download.stream] at steps

/-- A worker's step, seen from outside: only its own piece is written. -/
theorem worker_sound (positive : 0 < resource.length)
    (sound : Sound resource state) {i : Nat} {served : Served}
    (serves : Serves resource state (.worker i served))
    (steps : state.step resource.length (.worker i served) = some after) :
    Sound resource after ∧ ∃ region, (pieces resource.length)[i]? = some region ∧
      ∀ k, ¬ Inside region k → after.file[k]? = state.file[k]? := by
  obtain ⟨file, phase⟩ := state
  cases phase with
  | parallel tasks =>
      have working : Working resource file tasks := sound
      simp only [Download.step, Option.bind_eq_some_iff,
        Option.map_eq_some_iff] at steps
      obtain ⟨task, found, next, hnext, rfl⟩ := steps
      have hserves : ∀ buf, served = .delivers buf →
          buf <+: task.asked resource := by
        rintro buf rfl
        obtain ⟨-, -, hasked⟩ := serves buf rfl
        simpa [Download.asked, found] using hasked
      obtain ⟨houtside, hworking⟩ := working.step positive found hserves hnext
      exact ⟨hworking, task.region, working.region found, houtside⟩
  | resuming got stalls => simp [Download.step] at steps
  | streaming got stalls start => simp [Download.step] at steps
  | single isOpen => simp [Download.step] at steps
  | sizing => simp [Download.step] at steps
  | returned => simp [Download.step] at steps
  | exited => simp [Download.step] at steps

theorem joined_sound (positive : 0 < resource.length)
    (sound : Sound resource state)
    (steps : state.step resource.length .joined = some after) :
    Sound resource after := by
  obtain ⟨file, phase⟩ := state
  cases phase with
  | parallel tasks =>
      have working : Working resource file tasks := sound
      simp only [Download.step] at steps
      split at steps
      · next finished =>
          rw [Option.some.injEq] at steps
          exact steps ▸ working.complete positive finished
      · split at steps
        · rw [Option.some.injEq] at steps
          exact steps ▸ resumeAt_sound 0 (Nat.zero_le _) rfl
        · exact absurd steps.symm (Option.some_ne_none _)
  | resuming got stalls => simp [Download.step] at steps
  | streaming got stalls start => simp [Download.step] at steps
  | single isOpen => simp [Download.step] at steps
  | sizing => simp [Download.step] at steps
  | returned => simp [Download.step] at steps
  | exited => simp [Download.step] at steps

theorem sized_sound (sound : Sound resource state) {known : Bool}
    (steps : state.step resource.length (.sized known) = some after) :
    Sound resource after := by
  obtain ⟨file, phase⟩ := state
  cases phase with
  | sizing =>
      simp only [Download.step, Option.some.injEq] at steps
      subst steps
      by_cases wrong : known = true ∧ file.length ≠ resource.length
      · rw [if_pos wrong]
        exact trivial
      · rw [if_neg wrong]
        exact sound
  | parallel tasks => simp [Download.step] at steps
  | resuming got stalls => simp [Download.step] at steps
  | streaming got stalls start => simp [Download.step] at steps
  | single isOpen => simp [Download.step] at steps
  | returned => simp [Download.step] at steps
  | exited => simp [Download.step] at steps

theorem step_sound (positive : 0 < resource.length)
    (sound : Sound resource state) {event : Event}
    (serves : Serves resource state event)
    (steps : state.step resource.length event = some after) :
    Sound resource after := by
  cases event with
  | worker i served => exact (worker_sound positive sound serves steps).1
  | joined => exact joined_sound positive sound steps
  | stream served => exact stream_sound sound serves steps
  | sized known => exact sized_sound sound steps

theorem begun_sound (large : DL_CHUNK_MIN ≤ resource.length) (old : List UInt8) :
    Sound resource (begun (some resource.length, true) old) := by
  rw [begun, if_neg (Nat.not_lt.mpr large)]
  refine ⟨by simp [zeros], ?_, fun i task found => ?_⟩
  · rw [List.map_map]
    exact List.map_id _
  · rw [List.getElem?_map, Option.map_eq_some_iff] at found
    obtain ⟨piece, -, rfl⟩ := found
    exact trivial

/-- In every state that a run gets to, the file holds what it should. -/
theorem reachable_sound (large : DL_CHUNK_MIN ≤ resource.length)
    {old : List UInt8} (reachable :
      Reachable resource (begun (some resource.length, true) old) state) :
    Sound resource state := by
  have positive : 0 < resource.length :=
    Nat.lt_of_lt_of_le (by decide) large
  induction reachable with
  | refl => exact begun_sound large old
  | step _ serves steps ih => exact step_sound positive ih serves steps

end Steps

/-! ## A server that delivers all it is asked for -/

section Served

variable {resource : List UInt8} {start : Download} {file : List UInt8}
  {tasks : List Task} {i : Nat}

theorem serves_nothing {state : Download} {event : Event}
    (silent : event.delivered = none) : Serves resource state event := by
  intro buf brings
  rw [silent] at brings
  exact absurd brings.symm (Option.some_ne_none buf)

/-- What a worker does next, as a step of the download. -/
theorem reachable_worker {task : Task} {served : Served} {worker : Worker}
    {after : List UInt8} (found : tasks[i]? = some task)
    (next : task.step file served = some (worker, after))
    (serves : Serves resource ⟨file, .parallel tasks⟩ (.worker i served))
    (reachable : Reachable resource start ⟨file, .parallel tasks⟩) :
    Reachable resource start
      ⟨after, .parallel (tasks.set i { task with worker })⟩ := by
  refine reachable.step serves ?_
  simp only [Download.step, found, Option.bind_some, next, Option.map_some]

/-- A worker that is reading can get all of its piece. -/
theorem reachable_received {first last attempt : Nat}
    (within : last < resource.length) (missing : Nat) {written : Nat}
    (left : first + written + missing = last + 1)
    (found : tasks[i]? = some ⟨first, last, .receiving attempt written⟩)
    (reachable : Reachable resource start ⟨file, .parallel tasks⟩) :
    ∃ after, Reachable resource start ⟨after, .parallel
      (tasks.set i ⟨first, last, .receiving attempt (written + missing)⟩)⟩ := by
  induction missing using Nat.strongRecOn generalizing file tasks written with
  | _ missing ih =>
      obtain ⟨inside, hsame⟩ := List.getElem?_eq_some_iff.mp found
      by_cases none : missing = 0
      · subst none
        refine ⟨file, ?_⟩
        rwa [Nat.add_zero, ← hsame, List.set_getElem_self]
      · have hrest : (slice resource (first + written) (last + 1)).length =
            missing := by
          rw [slice_length]
          omega
        obtain ⟨buf, hbuf⟩ : ∃ buf, buf =
            (slice resource (first + written) (last + 1)).take DL_BUF :=
          ⟨_, rfl⟩
        have hlength : buf.length = min DL_BUF missing := by
          rw [hbuf, List.length_take, hrest]
        have hpositive : 0 < buf.length := by
          rw [hlength]
          unfold DL_BUF
          omega
        have hserves : Serves resource ⟨file, .parallel tasks⟩
            (.worker i (.delivers buf)) := by
          intro other same
          cases same
          refine ⟨List.ne_nil_of_length_pos hpositive,
            hlength ▸ Nat.min_le_left _ _, ?_⟩
          simp only [Download.asked, found, Option.map_some,
            Option.getD_some, Task.asked]
          exact hbuf ▸ List.take_prefix _ _
        have hnext := reachable_worker found rfl hserves reachable
        obtain ⟨after, hafter⟩ := ih (missing - buf.length) (by omega)
          (by omega) (List.getElem?_set_self inside) hnext
        have hsum : written + buf.length + (missing - buf.length) =
            written + missing := by omega
        rw [List.set_set, hsum] at hafter
        exact ⟨after, hafter⟩

/-- A worker that is served can return. -/
theorem reachable_finished {first last : Nat} (order : first ≤ last)
    (within : last < resource.length)
    (found : tasks[i]? = some ⟨first, last, .requesting 0⟩)
    (reachable : Reachable resource start ⟨file, .parallel tasks⟩) :
    ∃ after, Reachable resource start
      ⟨after, .parallel (tasks.set i ⟨first, last, .finished⟩)⟩ := by
  obtain ⟨inside, -⟩ := List.getElem?_eq_some_iff.mp found
  have hopen := @reachable_worker resource start file tasks i _ .opens _ _ found
    rfl (serves_nothing rfl) reachable
  have hroom : first + 0 + (last + 1 - first) = last + 1 := by omega
  obtain ⟨after, hall⟩ := reachable_received within (last + 1 - first) hroom
    (List.getElem?_set_self inside) hopen
  rw [List.set_set, Nat.zero_add] at hall
  have hexpected : Task.step
      ⟨first, last, .receiving 0 (last + 1 - first)⟩ after .ends =
        some (.finished, after) := by
    have hsize : last + 1 - first = last - first + 1 := by omega
    simp [Task.step, Task.expected, hsize]
  have hends := reachable_worker (List.getElem?_set_self inside) hexpected
    (serves_nothing rfl) hall
  rw [List.set_set] at hends
  exact ⟨after, hends⟩

/-- The workers can return one after the other. -/
theorem reachable_all_finished (back : List (Nat × Nat)) {front : List Task}
    (inside : ∀ piece ∈ back, piece.1 ≤ piece.2 ∧ piece.2 < resource.length)
    (done : ∀ task ∈ front, task.worker = .finished)
    (reachable : Reachable resource start ⟨file, .parallel
      (front ++ back.map fun piece => ⟨piece.1, piece.2, .requesting 0⟩)⟩) :
    ∃ after tasks, Reachable resource start ⟨after, .parallel tasks⟩ ∧
      ∀ task ∈ tasks, task.worker = .finished := by
  induction back generalizing file front with
  | nil => exact ⟨file, _, reachable, by simpa using done⟩
  | cons piece back ih =>
      obtain ⟨order, within⟩ := inside piece List.mem_cons_self
      obtain ⟨after, hafter⟩ := @reachable_finished resource start file _
        front.length piece.1 piece.2 order within (by simp) reachable
      have hset : (front ++ (piece :: back).map fun piece =>
          (⟨piece.1, piece.2, .requesting 0⟩ : Task)).set front.length
            ⟨piece.1, piece.2, .finished⟩ =
          (front ++ [⟨piece.1, piece.2, .finished⟩]) ++ back.map fun piece =>
            ⟨piece.1, piece.2, .requesting 0⟩ := by
        simp
      rw [hset] at hafter
      refine ih (fun other member => inside other (List.mem_cons_of_mem _ member))
        (fun task member => ?_) hafter
      rw [List.mem_append, List.mem_singleton] at member
      rcases member with earlier | rfl
      · exact done task earlier
      · rfl

/-- Served as it asks to be, `download` can return 0. -/
theorem reachable_returned (large : DL_CHUNK_MIN ≤ resource.length)
    (old : List UInt8) :
    ∃ file, Reachable resource (begun (some resource.length, true) old)
      ⟨file, .returned⟩ := by
  have positive : 0 < resource.length :=
    Nat.lt_of_lt_of_le (by decide) large
  have hbegun : begun (some resource.length, true) old =
      ⟨zeros resource.length, .parallel ([] ++ (pieces resource.length).map
        fun piece => ⟨piece.1, piece.2, .requesting 0⟩)⟩ := by
    rw [begun, if_neg (Nat.not_lt.mpr large), List.nil_append]
  have hstart := @Reachable.refl resource
    (begun (some resource.length, true) old)
  rw [hbegun] at hstart ⊢
  obtain ⟨file, tasks, hall, finished⟩ := reachable_all_finished
    (pieces resource.length)
    (fun piece member => ((pieces_tiles positive).mem member).2)
    (by simp) hstart
  have hjoined : Download.step resource.length ⟨file, .parallel tasks⟩ .joined =
      some ⟨file, .sizing⟩ := by
    simp only [Download.step]
    rw [if_pos finished]
  have hsized : Download.step resource.length ⟨file, .sizing⟩ (.sized false) =
      some ⟨file, .returned⟩ := by
    simp [Download.step]
  exact ⟨file, (hall.step (serves_nothing rfl) hjoined).step
    (serves_nothing rfl) hsized⟩

end Served

/-! ## A whole download -/

/--
For a resource that is large enough and a server that delivers what it is asked
for, as much of it as it likes: the pieces are one for each thread, not empty,
disjoint and make up the resource; a worker's step changes no byte outside its
piece; and when `download` returns 0 the file is the resource.
-/
theorem download_reassembles {resource : List UInt8}
    (large : DL_CHUNK_MIN ≤ resource.length) (old : List UInt8) :
    ((pieces resource.length).length = DL_THREADS ∧
      (∀ piece ∈ pieces resource.length, piece.1 ≤ piece.2) ∧
      (∀ (i j : Nat) (piece other : Nat × Nat), i ≠ j →
        (pieces resource.length)[i]? = some piece →
        (pieces resource.length)[j]? = some other →
        ∀ k, Inside piece k → ¬ Inside other k) ∧
      ∀ k, k < resource.length ↔
        ∃ piece ∈ pieces resource.length, Inside piece k) ∧
    ∀ state,
      Reachable resource (begun (some resource.length, true) old) state →
      (state.phase = .returned → state.file = resource) ∧
      ∀ i served after, Serves resource state (.worker i served) →
        state.step resource.length (.worker i served) = some after →
        ∃ piece, (pieces resource.length)[i]? = some piece ∧
          ∀ k, ¬ Inside piece k → after.file[k]? = state.file[k]? := by
  have positive : 0 < resource.length :=
    Nat.lt_of_lt_of_le (by decide) large
  have tiles := pieces_tiles positive
  refine ⟨⟨pieces_length large, fun piece member => (tiles.mem member).2.1,
    fun i j piece other apart hpiece hother k inside =>
      tiles.disjoint apart hpiece hother inside, fun k => ⟨?_, ?_⟩⟩,
    fun state reachable => ?_⟩
  · exact fun high => tiles.covers (Nat.zero_le k) high
  · rintro ⟨piece, member, inside⟩
    exact Nat.lt_of_le_of_lt inside.2 (tiles.mem member).2.2
  · have sound := reachable_sound large reachable
    refine ⟨fun returned => ?_, fun i served after serves steps =>
      (worker_sound positive sound serves steps).2⟩
    rw [Sound, returned] at sound
    exact sound

/-- Four mebibytes of zeros, over a file that holds one byte. -/
theorem download_reassembles_zeros :
    ∃ state, Reachable (zeros DL_CHUNK_MIN) (begun (some DL_CHUNK_MIN, true) [65])
        state ∧
      state.phase = .returned ∧ state.file = zeros DL_CHUNK_MIN := by
  have hlength : (zeros DL_CHUNK_MIN).length = DL_CHUNK_MIN :=
    List.length_replicate
  obtain ⟨file, reachable⟩ := reachable_returned (Nat.le_of_eq hlength.symm) [65]
  have hall := (download_reassembles (Nat.le_of_eq hlength.symm) [65]).2 _
    reachable
  rw [hlength] at reachable
  exact ⟨_, reachable, rfl, hall.1 rfl⟩

end RiscosBuilder.Build
