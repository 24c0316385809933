import Mathlib.Algebra.Ring.Nat
import Mathlib.Data.List.Basic

/-!
# Reassembly

Items are written one behind the other, each as a run of symbols, and the run
is cut into packets.  A receiver that takes an item as soon as it is ready, and
keeps the rest for the next packet, hands on every item once and in order, as
long as no packet ends between the point where an item is ready and its end.
-/

namespace RiscosBuilder.Library.Reassembly

/-- How items are written, and after how many symbols each is ready. -/
structure Coding (α β : Type) where
  bytes : β → List α
  ready : β → Nat
  ready_le : ∀ item, ready item ≤ (bytes item).length

namespace Coding

variable {α β : Type} (coding : Coding α β)

/-- The items written one behind the other. -/
def stream (items : List β) : List α :=
  items.flatMap coding.bytes

/-- The symbols end before the first of the items is ready. -/
def Incomplete (tail : List α) : List β → Prop
  | [] => tail = []
  | item :: _ => tail.length < coding.ready item

/-- An item is ready within so many symbols, and its end is not reached. -/
def CutInside (items : List β) (size : Nat) : Prop :=
  ∃ done item rest, items = done ++ item :: rest ∧
    (coding.stream done).length + coding.ready item ≤ size ∧
    size < (coding.stream done).length + (coding.bytes item).length

variable {coding}

theorem stream_append (first second : List β) :
    coding.stream (first ++ second) =
      coding.stream first ++ coding.stream second :=
  List.flatMap_append

theorem cutInside_cons_iff {item : β} {items : List β} {size : Nat} :
    coding.CutInside (item :: items) size ↔
      (coding.ready item ≤ size ∧ size < (coding.bytes item).length) ∨
        ((coding.bytes item).length ≤ size ∧
          coding.CutInside items (size - (coding.bytes item).length)) := by
  constructor
  · rintro ⟨done, other, rest, same, hready, hend⟩
    cases done with
    | nil =>
        rw [List.nil_append, List.cons.injEq] at same
        simp only [stream, List.flatMap_nil, List.length_nil, Nat.zero_add]
          at hready hend
        exact Or.inl (same.1 ▸ ⟨hready, hend⟩)
    | cons first done =>
        rw [List.cons_append, List.cons.injEq] at same
        obtain ⟨rfl, rfl⟩ := same
        simp only [stream, List.flatMap_cons, List.length_append]
          at hready hend
        refine Or.inr ⟨by omega, done, other, rest, rfl, ?_, ?_⟩ <;>
          simp only [stream] <;> omega
  · rintro (⟨hready, hend⟩ | ⟨hlong, done, other, rest, rfl, hready, hend⟩)
    · refine ⟨[], item, items, rfl, ?_, ?_⟩ <;>
        simpa [stream]
    · refine ⟨item :: done, other, rest, rfl, ?_, ?_⟩ <;>
        simp only [stream, List.flatMap_cons, List.length_append]
          at hready hend ⊢ <;> omega

instance decidableCutInside : (items : List β) → (size : Nat) →
    Decidable (coding.CutInside items size)
  | [], _ => isFalse (by rintro ⟨done, _, _, same, -⟩; simp at same)
  | item :: items, size =>
      have := decidableCutInside items (size - (coding.bytes item).length)
      decidable_of_iff _ cutInside_cons_iff.symm

/-- A front of the stream is some of the items, and a tail that is incomplete. -/
theorem exists_split {items : List β} {whole : List α}
    (front : whole <+: coding.stream items)
    (uncut : ¬ coding.CutInside items whole.length) :
    ∃ done rest tail, items = done ++ rest ∧
      whole = coding.stream done ++ tail ∧
      coding.Incomplete tail rest ∧ tail <+: coding.stream rest := by
  induction items generalizing whole with
  | nil =>
      have hempty : whole = [] := List.prefix_nil.mp front
      exact ⟨[], [], [], rfl, hempty, rfl, List.prefix_refl _⟩
  | cons item items ih =>
      rw [stream, List.flatMap_cons] at front
      by_cases short : whole.length < coding.ready item
      · exact ⟨[], item :: items, whole, rfl, rfl, short,
          by rwa [stream, List.flatMap_cons]⟩
      · have hlong : (coding.bytes item).length ≤ whole.length := by
          by_contra inside
          apply uncut
          refine ⟨[], item, items, rfl, ?_, ?_⟩ <;>
            simp only [stream, List.flatMap_nil, List.length_nil] <;> omega
        obtain ⟨later, rfl⟩ : coding.bytes item <+: whole :=
          List.prefix_of_prefix_length_le (List.prefix_append _ _) front hlong
        rw [List.prefix_append_right_inj] at front
        have huncut : ¬ coding.CutInside items later.length := by
          rintro ⟨done, other, rest, rfl, hready, hend⟩
          apply uncut
          refine ⟨item :: done, other, rest, rfl, ?_, ?_⟩ <;>
            simp only [stream, List.flatMap_cons, List.length_append]
              at hready hend ⊢ <;> omega
        obtain ⟨done, rest, tail, rfl, rfl, hincomplete, hfront⟩ :=
          ih front huncut
        refine ⟨item :: done, rest, tail, rfl, ?_, hincomplete, hfront⟩
        rw [stream, stream, List.flatMap_cons, List.append_assoc]

/-- No packet ends inside an item that is ready; `tail` is there already. -/
def Uncut (coding : Coding α β) (tail : List α) (items : List β)
    (packets : List (List α)) : Prop :=
  ∀ arrived, arrived <+: packets →
    ¬ coding.CutInside items (tail.length + arrived.flatten.length)

/-- What is left uncut once the first packet has been taken. -/
theorem Uncut.tail {tail later packet : List α} {done rest : List β}
    {packets : List (List α)}
    (uncut : coding.Uncut tail (done ++ rest) (packet :: packets))
    (split : tail ++ packet = coding.stream done ++ later) :
    coding.Uncut later rest packets := by
  intro arrived front inside
  apply uncut (packet :: arrived) ((List.prefix_cons_inj packet).mpr front)
  obtain ⟨before, item, after, rfl, hready, hend⟩ := inside
  have hlength := congrArg List.length split
  refine ⟨done ++ before, item, after, by simp, ?_, ?_⟩ <;>
    simp only [stream_append, List.length_append, List.flatten_cons]
      at hlength ⊢ <;> omega

/-- The packets of a list, one after the other; what they yield is collected. -/
def feedAll {σ γ : Type} (step : σ → List α → Option (σ × List γ)) :
    σ → List (List α) → Option (σ × List γ)
  | state, [] => some (state, [])
  | state, packet :: packets =>
      match step state packet with
      | none => none
      | some (next, out) =>
          match feedAll step next packets with
          | none => none
          | some (last, later) => some (last, out ++ later)

/--
A step that hands on the items that are ready and holds the incomplete tail
hands on all of them, however they are cut into packets of an allowed kind.
-/
theorem feedAll_items {σ γ : Type} {out : β → γ}
    {step : σ → List α → Option (σ × List γ)} {Holds : σ → List α → Prop}
    {Allowed : List α → Prop}
    (takes : ∀ {state : σ} {packet : List α} {done rest : List β}
      {tail later : List α}, Holds state tail → Allowed packet →
      coding.Incomplete tail (done ++ rest) →
      tail ++ packet = coding.stream done ++ later →
      coding.Incomplete later rest → later <+: coding.stream rest →
        ∃ next, step state packet = some (next, done.map out) ∧
          Holds next later)
    {packets : List (List α)} (allowed : ∀ packet ∈ packets, Allowed packet)
    {items : List β} {tail : List α} {state : σ} (holds : Holds state tail)
    (incomplete : coding.Incomplete tail items)
    (whole : tail ++ packets.flatten = coding.stream items)
    (uncut : coding.Uncut tail items packets) :
    ∃ last, feedAll step state packets = some (last, items.map out) ∧
      Holds last [] := by
  induction packets generalizing items tail state with
  | nil =>
      rw [List.flatten_nil, List.append_nil] at whole
      cases items with
      | nil => exact ⟨state, rfl, by rwa [show tail = [] from incomplete] at holds⟩
      | cons item items =>
          have hready := coding.ready_le item
          have hlength := congrArg List.length whole
          simp only [Incomplete] at incomplete
          simp only [stream, List.flatMap_cons, List.length_append] at hlength
          omega
  | cons packet packets ih =>
      rw [List.flatten_cons, ← List.append_assoc] at whole
      have hcut := uncut [packet] (by simp)
      rw [List.flatten_singleton, ← List.length_append] at hcut
      obtain ⟨done, rest, later, rfl, hsplit, hlater, hfront⟩ :=
        exists_split ⟨packets.flatten, whole⟩ hcut
      obtain ⟨next, hstep, hnext⟩ := takes holds
        (allowed packet List.mem_cons_self) incomplete hsplit hlater hfront
      rw [hsplit, stream_append, List.append_assoc,
        List.append_cancel_left_eq] at whole
      obtain ⟨last, hlast, hholds⟩ := ih
        (fun other member => allowed other (List.mem_cons_of_mem _ member))
        hnext hlater whole (uncut.tail hsplit)
      refine ⟨last, ?_, hholds⟩
      simp only [feedAll, hstep, hlast, List.map_append]

end Coding

end RiscosBuilder.Library.Reassembly
