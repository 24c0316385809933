import RiscosBuilder.Agent.ArchiveReads
import RiscosBuilder.Agent.Live
import RiscosBuilder.Agent.SafeName

/-!
# What reading sends

The negotiations in a stream are answered while it is read, so what is sent by
reading is settled by the stream.  Besides that `serve` sends only what its
commands and its transfers do.
-/

namespace RiscosBuilder.Agent

open RiscosBuilder.Library RiscosBuilder.Library.ByteString
open RiscosBuilder.Library.ByteImage RiscosBuilder.Library.FileImage
open RiscosBuilder.Library.Tar

namespace Telnet

/-- What has been sent, and the answers to what is still to come. -/
def foretold (chan : Telnet) : List UInt8 :=
  chan.sock.sent ++ (scan chan.remaining).reply.flatten

/-- Only answers have been sent in between. -/
structure Answered (chan after : Telnet) : Prop where
  sent : chan.sock.sent <+: after.sock.sent
  foretold : after.foretold = chan.foretold

namespace Answered

variable {chan after last : Telnet}

theorem refl (chan : Telnet) : Answered chan chan :=
  ⟨List.prefix_refl _, rfl⟩

theorem trans (first : Answered chan after) (second : Answered after last) :
    Answered chan last :=
  ⟨first.sent.trans second.sent, second.foretold.trans first.foretold⟩

/-- All that has been sent then had been foretold. -/
theorem sent_foretold (answered : Answered chan after) :
    after.sock.sent <+: chan.foretold :=
  answered.foretold ▸ List.prefix_append _ _

theorem fill (chan : Telnet) : Answered chan chan.fill := by
  cases harrivals : chan.sock.arrivals with
  | nil =>
      have ended := fill_ended harrivals
      have hsent : chan.fill.sock.sent = chan.sock.sent := by
        cases hending : chan.sock.ending <;>
          simp [Telnet.fill, Socket.recv, harrivals, hending]
      have hraw : (scan chan.fill.raw).reply = [] := by
        rw [chan.fill.scan_raw]
      refine ⟨hsent ▸ List.prefix_refl _, ?_⟩
      simp only [Telnet.foretold, remaining, ended.arrivals, harrivals, wire_nil,
        List.append_nil, hraw, chan.scan_raw, hsent]
  | cons chunk later =>
      have filled := fill_filled harrivals
      have hlater : chan.fill.sock.arrivals = later := by
        have hsplit := filled.arrivals
        rw [harrivals, List.singleton_append, List.cons.injEq] at hsplit
        exact hsplit.2.symm
      have hscan := scan_append (chan.raw ++ wire [chunk]) (wire later)
      refine ⟨filled.sent ▸ List.prefix_append _ _, ?_⟩
      rw [Telnet.foretold, Telnet.foretold, remaining, remaining, hlater,
        harrivals, filled.raw, filled.sent,
        show wire (chunk :: later) = wire [chunk] ++ wire later by simp,
        ← List.append_assoc chan.raw, hscan, List.flatten_append,
        List.append_assoc]

theorem fillWhile (short : List UInt8 → Bool) (fuel : Nat) (chan : Telnet) :
    Answered chan (Telnet.fillWhile short fuel chan) := by
  induction fuel generalizing chan with
  | zero => exact refl chan
  | succ fuel ih =>
      rw [Telnet.fillWhile]
      split
      · exact (fill chan).trans (ih chan.fill)
      · exact refl chan

theorem read (chan : Telnet) (want : Nat) : Answered chan (chan.read want).2 :=
  have answered := fillWhile (fun buf => decide (buf.length < want))
    chan.fillBound chan
  ⟨answered.sent, answered.foretold⟩

theorem readLine (chan : Telnet) : Answered chan chan.readLine.2 := by
  have answered := fillWhile (fun buf => (splitLine buf).isNone) chan.fillBound
    chan
  rw [Telnet.readLine]
  cases splitLine (Telnet.fillWhile (fun buf => (splitLine buf).isNone)
    chan.fillBound chan).buf <;> exact ⟨answered.sent, answered.foretold⟩

end Answered

end Telnet

theorem runTar_answered (steps : List TarStep) (chan : Telnet) :
    Telnet.Answered chan (runTar steps chan).2 := by
  induction steps generalizing chan with
  | nil => exact .refl chan
  | cons step steps ih =>
      cases step with
      | read want => exact (Telnet.Answered.read chan want).trans (ih _)
      | member name => exact ih chan

/-- A push that fails sends nothing of its own, any other the marker at its end. -/
theorem doExtract_answered (chan : Telnet) (extraction : Extraction) :
    (extraction.fails = true →
      Telnet.Answered chan (doExtract chan extraction).2) ∧
    (extraction.fails = false →
      Telnet.escape tarDone <:+ (doExtract chan extraction).2.sock.sent) := by
  match extraction with
  | .noDirectory => exact ⟨fun _ => .refl chan, fun succeeds => (by cases succeeds)⟩
  | .tar steps true =>
      exact ⟨fun _ => runTar_answered steps chan, fun succeeds => (by cases succeeds)⟩
  | .tar steps false =>
      refine ⟨fun fails => (by cases fails), fun _ => ?_⟩
      exact List.suffix_append (runTar steps chan).2.sock.sent _

/-- A turn that has the operating system do nothing has only read. -/
theorem serveTurn_silent {turn : Turn} {chan after : Telnet}
    (silent : (serveTurn turn chan).events = [])
    (next : (serveTurn turn chan).next = some after) :
    Telnet.Answered chan after := by
  have hline := Telnet.Answered.readLine chan
  unfold serveTurn at silent next
  split at next
  · cases next
  · next running =>
      rw [if_neg running] at silent
      split at next
      · cases next
      · next line read hread =>
          rw [hread] at hline silent
          split at next
          · cases next
            exact hline
          · next nonblank =>
              simp only [if_neg nonblank] at silent
              split at next <;> simp_all

/-- Nor have turns that all do nothing. -/
theorem Scripted.silent {world : Nat → Turn} {start chan : Telnet}
    {log : List (Turn × List Event)}
    (scripted : Scripted world start log (some chan))
    (silent : ∀ entry ∈ log, entry.2 = []) : Telnet.Answered start chan := by
  induction log generalizing world start with
  | nil =>
      obtain rfl : start = chan := Option.some.inj scripted.next
      exact .refl start
  | cons first log ih =>
      obtain ⟨hevents, ⟨after, hafter, hscripted⟩ | ⟨-, -, hnone⟩⟩ :=
        scripted.uncons
      · rw [silent first List.mem_cons_self] at hevents
        exact (serveTurn_silent hevents hafter).trans
          (ih hscripted fun entry member =>
            silent entry (List.mem_cons_of_mem _ member))
      · exact absurd hnone (Option.some_ne_none chan)

/-! ## The members of an archive -/

@[simp] theorem delivered_recordReads (known upto : Nat) :
    delivered (recordReads known upto) = [] := by
  rw [delivered, List.filterMap_eq_nil_iff]
  intro step member
  rw [List.eq_of_mem_replicate member]

variable {frombuf : List UInt8 → Info}

/-- Every member is delivered, in order. -/
theorem delivered_tarSteps (members : List (Member frombuf))
    {front rest : List UInt8} {fuel : Nat} (enough : members.length < fuel) :
    delivered (tarSteps frombuf
        (front ++ contents members ++ zeros BLOCKSIZE ++ rest) fuel
        front.length) =
      members.map fun member => (frombuf member.header).name := by
  induction members generalizing front fuel with
  | nil =>
      obtain ⟨fuel, rfl⟩ := Nat.exists_eq_succ_of_ne_zero (Nat.ne_of_gt enough)
      rw [contents, List.flatMap_nil, List.append_nil, tarSteps_zeros,
        delivered_recordReads, List.map_nil]
  | cons member members ih =>
      obtain ⟨fuel, rfl⟩ := Nat.exists_eq_succ_of_ne_zero (Nat.ne_of_gt
        (Nat.zero_lt_of_lt enough))
      have hstream : front ++ contents (member :: members) ++ zeros BLOCKSIZE ++
          rest = front ++ member.bytes ++
            (contents members ++ zeros BLOCKSIZE ++ rest) := by
        simp [contents]
      have hlater := @ih (front ++ member.bytes) fuel
        (Nat.lt_of_succ_lt_succ enough)
      rw [List.append_assoc _ (contents members), List.append_assoc _
        (contents members ++ zeros BLOCKSIZE)] at hlater
      rw [hstream, tarSteps_member, List.map_cons, ← hlater]
      simp

/-- What is extracted from an archive: its members, by the names they are given. -/
theorem doExtract_names (members : List (Member frombuf)) (chan : Telnet) :
    (doExtract chan (untar frombuf (archive members))).1 =
      members.filterMap fun member => safeName (frombuf member.header).name := by
  have hlength := members_length_lt members []
  have hstream : archive members = [] ++ contents members ++ zeros BLOCKSIZE ++
      (zeros BLOCKSIZE ++
        zeros (filling ((contents members).length + 2 * BLOCKSIZE))) := by
    simp [archive, zeros, Nat.two_mul, ← List.replicate_append_replicate]
  rw [List.append_nil] at hlength
  have hdelivered := @delivered_tarSteps frombuf members [] (zeros BLOCKSIZE ++
    zeros (filling ((contents members).length + 2 * BLOCKSIZE))) _ hlength
  rw [← hstream, List.length_nil] at hdelivered
  rw [untar, doExtract, runTar_names, hdelivered, List.filterMap_map]
  rfl

end RiscosBuilder.Agent
