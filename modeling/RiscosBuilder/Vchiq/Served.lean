import RiscosBuilder.Vchiq.RefusedOnce

/-!
# Every request is reached

How far a ring of doorbell 2 comes in the guest's stream: 256 messages, or up to
the first OPEN for whose refusal the master's slots have no room.  A guest that
rings often enough has everything consumed that there is room for, whatever else
it does in between; and nothing more is ever consumed, as slots do not come back.
-/

namespace RiscosBuilder.Vchiq

open RiscosBuilder.Library

/-! ## What there is room for -/

/-- The messages in front of the first OPEN that finds no room for its answer. -/
def answerable : Nat → List GuestMessage → List GuestMessage
  | _, [] => []
  | room, message :: rest =>
      if message.isOpen then
        if room = 0 then [] else message :: answerable (room - 1) rest
      else message :: answerable room rest

/-- The answers that fit behind the CONNECT. -/
def Area.capacity (a : Area) : Nat :=
  512 * (a.spare + 1) - 1

/-- What has been answered had room, and the rest has what it has left. -/
theorem answerable_append {room : Nat} {first second : List GuestMessage}
    (fits : (refusals first).length ≤ room) :
    answerable room (first ++ second) =
      first ++ answerable (room - (refusals first).length) second := by
  induction first generalizing room with
  | nil => rfl
  | cons message first ih =>
      cases asks : message.isOpen with
      | false =>
          have hcount : refusals (message :: first) = refusals first := by
            simp [refusals, asks]
          rw [hcount] at fits ⊢
          rw [List.cons_append, answerable, if_neg (by simp [asks]), ih fits,
            List.cons_append]
      | true =>
          have hcount : (refusals (message :: first)).length =
              (refusals first).length + 1 := by
            simp [refusals, asks]
          rw [hcount] at fits ⊢
          cases room with
          | zero => exact absurd fits (Nat.not_succ_le_zero _)
          | succ room =>
              rw [List.cons_append, answerable, if_pos asks,
                if_neg (Nat.succ_ne_zero room), Nat.add_sub_cancel,
                ih (Nat.le_of_succ_le_succ fits), Nat.add_sub_add_right,
                List.cons_append]

theorem refusals_answerable (room : Nat) (stream : List GuestMessage) :
    (refusals (answerable room stream)).length ≤ room := by
  induction stream generalizing room with
  | nil => exact Nat.zero_le _
  | cons message rest ih =>
      rw [answerable]
      cases asks : message.isOpen with
      | false => simpa [refusals, asks] using ih room
      | true =>
          cases room with
          | zero => exact Nat.zero_le _
          | succ room => simpa [refusals, asks] using ih room

/-- Everything is answerable just if there is room for all its OPENs. -/
theorem answerable_eq_self_iff {room : Nat} {stream : List GuestMessage} :
    answerable room stream = stream ↔ (refusals stream).length ≤ room := by
  constructor
  · intro same
    rw [← same]
    exact refusals_answerable room stream
  · intro fits
    have happend := @answerable_append room stream [] fits
    rwa [List.append_nil, answerable, List.append_nil] at happend

/-- A longer stream has the same answerable messages in front. -/
theorem answerable_mono {room : Nat} {stream longer : List GuestMessage}
    (front : stream <+: longer) :
    answerable room stream <+: answerable room longer := by
  obtain ⟨more, rfl⟩ := front
  induction stream generalizing room with
  | nil => exact List.nil_prefix
  | cons message rest ih =>
      rw [List.cons_append, answerable, answerable]
      split
      · split
        · exact List.prefix_refl _
        · exact (List.prefix_cons_inj message).mpr ih
      · exact (List.prefix_cons_inj message).mpr ih

/-! ## How far a drain comes -/

section Drain

variable {a : Area} {s : MboxVchiqState} {read unread : List GuestMessage}

theorem Faithful.answerable (ready : Ready a s)
    (faithful : Faithful a read unread s) :
    answerable a.capacity (read ++ unread) =
      read ++ Vchiq.answerable (512 * (a.spare + 1) - s.sent.length) unread := by
  have hused := ready.used
  have hsent := faithful.sent_length
  have hcapacity : a.capacity - (refusals read).length =
      512 * (a.spare + 1) - s.sent.length := by
    unfold Area.capacity
    omega
  rw [answerable_append (by unfold Area.capacity; omega), hcapacity]

/-- So many turns consume so many messages more, if there is room for them. -/
theorem turns_answerable {slaveTx : UInt32} {posted : List GuestMessage}
    (count : Nat) : ∀ {read unread : List GuestMessage} {s : MboxVchiqState}
      {replied : Bool}, Ready a s → Faithful a read unread s →
      posted = read ++ unread → s.memory.ldl (a.slaveState + 28) = slaveTx →
      ∃ next flag done rest, Loop.turns (drainTurn slaveTx) count (s, replied) =
          (next, flag) ∧ Ready a next ∧ Faithful a done rest next ∧
        posted = done ++ rest ∧
        done = (answerable a.capacity posted).take (read.length + count) := by
  induction count with
  | zero =>
      intro read unread s replied ready faithful split ahead
      refine ⟨s, replied, read, unread, rfl, ready, faithful, split, ?_⟩
      rw [split, faithful.answerable ready, Nat.add_zero, List.take_left]
  | succ count ih =>
      intro read unread s replied ready faithful split ahead
      obtain ⟨hlast, hspan, hqueue, hdata, htop⟩ := a.bounds
      -- Where no turn is taken, nothing more is answerable.
      have stops (done : drainTurn slaveTx (s, replied) = none)
          (none : answerable a.capacity posted = read) :
          ∃ next flag done rest,
            Loop.turns (drainTurn slaveTx) (count + 1) (s, replied) =
              (next, flag) ∧ Ready a next ∧ Faithful a done rest next ∧
            posted = done ++ rest ∧ done =
              (answerable a.capacity posted).take (read.length + (count + 1)) := by
        refine ⟨s, replied, read, unread, Loop.turns_of_done _ done, ready,
          faithful, split, ?_⟩
        rw [none, List.take_of_length_le (Nat.le_add_right _ _)]
      have hanswerable := faithful.answerable ready
      rw [← split] at hanswerable
      cases unread with
      | nil =>
          refine stops ?_ (by rw [hanswerable, answerable, List.append_nil])
          rw [drainTurn_eq ready, if_pos]
          rw [← ahead]
          exact faithful.at_end.mpr rfl
      | cons message rest =>
          rcases drainTurn_cases ready faithful ahead replied with
            ⟨full, done⟩ | ⟨⟨after, flag⟩, hturn, consumed⟩
          · have asks : message.isOpen = true := by
              by_contra other
              rw [drainTurn_faithful ready faithful ahead, if_neg other] at done
              exact absurd done (Option.some_ne_none _)
            refine stops done ?_
            rw [hanswerable, full, Nat.sub_self, answerable, if_pos asks,
              if_pos rfl, List.append_nil]
          · obtain ⟨next, last, done, others, hturns, hready, hfaithful, hsplit,
              hdone⟩ := ih consumed.ready consumed.faithful
                (by rw [split, List.append_assoc, List.singleton_append])
                ((consumed.aside.ldl (by omega)).symm.trans ahead)
            refine ⟨next, last, done, others, ?_, hready, hfaithful, hsplit, ?_⟩
            · rw [Loop.turns, hturn]
              exact hturns
            · rw [hdone, List.length_append, List.length_singleton,
                Nat.add_assoc, Nat.add_comm 1]

/-- A ring consumes 256 messages, if there is room for their answers. -/
theorem Faithful.drained (ready : Ready a s)
    (faithful : Faithful a read unread s) :
    ∃ done rest, Faithful a done rest (drain s) ∧ read ++ unread = done ++ rest ∧
      done = (Vchiq.answerable a.capacity (read ++ unread)).take
        (read.length + 256) := by
  obtain ⟨start, hready, -, -, hfaithful, hdrain⟩ := drain_start ready faithful
  obtain ⟨next, flag, done, rest, hturns, hready, hfaithful, hsplit, hdone⟩ :=
    @turns_answerable a _ _ 256 read unread start false hready hfaithful rfl rfl
  refine ⟨done, rest, ?_, hsplit, hdone⟩
  rw [hdrain, hturns]
  cases flag with
  | false => exact hfaithful
  | true => exact hfaithful.ring hready.handed

end Drain

/-! ## Rings in a run -/

/-- The guest writes doorbell 2. -/
def Link.rung (link : Link) : Link :=
  { link with device := dbellWrite link.device DBELL_ARM_TO_VC }

/-- The guest rings so many times, with any steps in between. -/
inductive Rings (a : Area) (start : Link) : Nat → Link → Prop where
  | start : Rings a start 0 start
  | step {count : Nat} {link next : Link} (rings : Rings a start count link)
      (step : Step a link next) : Rings a start count next
  | ring {count : Nat} {link : Link} (rings : Rings a start count link) :
      Rings a start (count + 1) link.rung

namespace Linked

variable {a : Area} {link next : Link}

/-- Nothing is consumed that there was no room for. -/
theorem read_answerable (linked : Linked a link) :
    link.read <+: answerable a.capacity link.posted := by
  obtain ⟨hstreaming, -, ⟨read, unread, hposted, hfaithful⟩, -⟩ := linked
  rw [(split hposted hfaithful).1, hposted,
    hfaithful.answerable hstreaming.toReady]
  exact List.prefix_append _ _

theorem read_rung (linked : Linked a link) : link.rung.read =
    (answerable a.capacity link.posted).take (link.read.length + 256) := by
  obtain ⟨hstreaming, -, ⟨read, unread, hposted, hfaithful⟩, -⟩ := linked
  obtain ⟨done, rest, hdrained, hsplit, hdone⟩ :=
    hfaithful.drained hstreaming.toReady
  have hrung : link.rung.read = upTo (total done) (done ++ rest) := by
    rw [← hdrained.rxPos, ← hsplit, ← hposted]
    rfl
  rw [hrung, upTo_total, (split hposted hfaithful).1, hposted]
  exact hdone

/-- No step takes anything back. -/
theorem grows (linked : Linked a link) (step : Step a link next) :
    link.posted <+: next.posted ∧ link.read <+: next.read := by
  cases step with
  | store own => exact ⟨List.prefix_refl _, List.prefix_refl _⟩
  | @publish message stands low =>
      obtain ⟨hstreaming, -, ⟨read, unread, hposted, hfaithful⟩, -⟩ := linked
      have hsame : upTo link.device.rxPos.toNat (link.posted ++ [message]) =
          link.read := by
        rw [(split hposted hfaithful).1, hfaithful.rxPos, hposted,
          List.append_assoc, upTo_total]
      exact ⟨List.prefix_append _ _, hsame.symm ▸ List.prefix_refl link.read⟩
  | ring =>
      refine ⟨List.prefix_refl _, ?_⟩
      change link.read <+: link.rung.read
      rw [linked.read_rung, List.prefix_take_iff]
      exact ⟨linked.read_answerable, Nat.le_add_right _ _⟩
  | read => exact ⟨List.prefix_refl _, List.prefix_refl _⟩

/-- So many rings later so many times 256 messages more are consumed, with room. -/
theorem rings {count : Nat} (linked : Linked a link) (unmasked : a.Unmasked)
    (rings : Rings a link count next) :
    Linked a next ∧ link.posted <+: next.posted ∧
      (answerable a.capacity link.posted).take
        (link.read.length + 256 * count) <+: next.read := by
  induction rings with
  | start =>
      have hread : (answerable a.capacity link.posted).take link.read.length =
          link.read := (List.prefix_iff_eq_take.mp linked.read_answerable).symm
      refine ⟨linked, List.prefix_refl _, [], ?_⟩
      rw [Nat.mul_zero, Nat.add_zero, hread, List.append_nil]
  | step _ step ih =>
      obtain ⟨hlinked, hposted, hread⟩ := ih
      obtain ⟨hmore, hfurther⟩ := hlinked.grows step
      exact ⟨hlinked.step unmasked step, hposted.trans hmore,
        hread.trans hfurther⟩
  | ring _ ih =>
      obtain ⟨hlinked, hposted, hread⟩ := ih
      refine ⟨hlinked.ring unmasked, hposted, ?_⟩
      have hlength := hread.length_le
      rw [List.length_take] at hlength
      rw [hlinked.read_rung, List.prefix_take_iff, List.length_take]
      refine ⟨(List.take_prefix _ _).trans (answerable_mono hposted), ?_⟩
      omega

end Linked

theorem handover_linked {a : Area} {s after : MboxVchiqState} {fuel : Nat}
    (unmasked : a.Unmasked) (found : slotZeroAt s a.base = a.zero)
    (accepted : (takeArea s a.base).1 = true)
    (handed : handover fuel s a.base = some after)
    {posted : List GuestMessage} (reads : a.Reads s.memory 0 posted)
    (slaveTx : a.slaveTx s.memory = total posted) :
    Linked a ⟨after, posted, 0⟩ where
  streaming := handover_streaming accepted found handed
  kept := (kept_stable unmasked).handover accepted found handed (by
    rw [Kept, opened_sent]
    rfl)
  faithful := ⟨[], posted, rfl,
    handover_faithful accepted found handed reads slaveTx⟩
  woken := fun _ => by
    change Belled a after
    rw [handover_opened accepted found handed]
    exact ((opened_ready found).queued opened_room connect).handed.belled

/-- How far the device has come with what was published when the guest began to ring. -/
structure Served (a : Area) (link : Link) (count : Nat) (later : Link) : Prop where
  reached : (answerable a.capacity link.posted).take
    (link.read.length + 256 * count) <+: later.read
  bounded : later.read <+: answerable a.capacity later.posted
  stream : masterStream a later.device.memory =
    (connect, 0) :: refusals later.read
  whole : link.posted.length ≤ link.read.length + 256 * count →
    (refusals link.posted).length ≤ a.capacity → link.posted <+: later.read

theorem Linked.served {a : Area} {link later : Link} {count : Nat}
    (linked : Linked a link) (unmasked : a.Unmasked)
    (rings : Rings a link count later) : Served a link count later := by
  obtain ⟨hlater, -, hread⟩ := linked.rings unmasked rings
  refine ⟨hread, hlater.read_answerable, hlater.refusedOnce.stream,
    fun enough fits => ?_⟩
  rwa [answerable_eq_self_iff.mpr fits, List.take_of_length_le enough] at hread

/--
Behind an accepted handover, from any moment on, each ring gets the device
through 256 messages more of what the guest had published, up to the first OPEN
for whose refusal there is no room; it never comes past that one.
-/
theorem rings_serve {a : Area} {s after : MboxVchiqState} {fuel k : Nat}
    (pow : a.zero.perSide.toNat = 2 ^ k)
    (found : slotZeroAt s a.base = a.zero)
    (accepted : (takeArea s a.base).1 = true)
    (handed : handover fuel s a.base = some after)
    {posted : List GuestMessage} (reads : a.Reads s.memory 0 posted)
    (slaveTx : a.slaveTx s.memory = total posted) {link later : Link}
    (reach : Relation.ReflTransGen (Step a) ⟨after, posted, 0⟩ link)
    {count : Nat} (rings : Rings a link count later) :
    Served a link count later := by
  have hunmasked := Area.unmasked_of_two_pow pow
  have hstart := handover_linked hunmasked found accepted handed reads slaveTx
  exact (hstart.reachable hunmasked reach).served hunmasked rings

/-- A request is published, and one ring reaches it. -/
theorem rings_serve_four_slots : ∃ later : Link, [request] <+: later.read ∧
    masterStream fourASide later.device.memory =
      (connect, 0) :: refusals later.read := by
  have hfound : slotZeroAt (idle unpublished) fourASide.base =
      fourASide.zero := by decide +kernel
  have haccepted : (takeArea (idle unpublished) fourASide.base).1 = true := by
    decide +kernel
  have hstands : fourASide.Stands (requested fourASide unpublished).memory
      (fourASide.slaveTx (requested fourASide unpublished).memory) request :=
    ⟨⟨by decide +kernel, by decide +kernel, by decide +kernel⟩,
      by decide +kernel, by decide +kernel, by decide +kernel⟩
  have hpublish : Step fourASide ⟨requested fourASide unpublished, [], 0⟩ _ :=
    Step.publish hstands (by decide +kernel)
  have hserved := @rings_serve _ _ _ _ 2 rfl hfound haccepted
    (handover_accepted haccepted hfound) [] trivial (by decide +kernel) _ _
      (Relation.ReflTransGen.single hpublish) 1 (Rings.ring Rings.start)
  exact ⟨_, hserved.whole (by decide) (by decide +kernel), hserved.stream⟩

end RiscosBuilder.Vchiq
