/-!
# Tilings of an interval

Regions, given by their first and their last position, that follow on one
another and together make up an interval.
-/

namespace RiscosBuilder.Library.Tiling

/-- The regions tile the positions from `place` up to `size`. -/
def Tiles (size : Nat) : Nat → List (Nat × Nat) → Prop
  | place, [] => place = size
  | place, (first, last) :: regions =>
      first = place ∧ first ≤ last ∧ Tiles size (last + 1) regions

/-- The position lies in the region. -/
def Inside (region : Nat × Nat) (i : Nat) : Prop :=
  region.1 ≤ i ∧ i ≤ region.2

instance (region : Nat × Nat) (i : Nat) : Decidable (Inside region i) :=
  inferInstanceAs (Decidable (_ ∧ _))

variable {size place : Nat} {regions : List (Nat × Nat)}

theorem Tiles.le (tiles : Tiles size place regions) : place ≤ size := by
  induction regions generalizing place with
  | nil => exact Nat.le_of_eq tiles
  | cons region regions ih =>
      obtain ⟨first, last⟩ := region
      obtain ⟨rfl, order, later⟩ := tiles
      have hle := ih later
      omega

theorem Tiles.mem {region : Nat × Nat} (tiles : Tiles size place regions)
    (member : region ∈ regions) :
    place ≤ region.1 ∧ region.1 ≤ region.2 ∧ region.2 < size := by
  induction regions generalizing place with
  | nil => simp at member
  | cons head regions ih =>
      obtain ⟨first, last⟩ := head
      obtain ⟨rfl, order, later⟩ := tiles
      rcases List.mem_cons.mp member with rfl | member
      · exact ⟨Nat.le_refl _, order, later.le⟩
      · have hregion := ih later member
        exact ⟨by omega, hregion.2⟩

/-- Each region ends before the next begins. -/
theorem Tiles.pairwise (tiles : Tiles size place regions) :
    regions.Pairwise fun region other => region.2 < other.1 := by
  induction regions generalizing place with
  | nil => exact List.Pairwise.nil
  | cons head regions ih =>
      obtain ⟨first, last⟩ := head
      obtain ⟨-, -, later⟩ := tiles
      refine List.pairwise_cons.mpr ⟨fun other member => ?_, ih later⟩
      exact (later.mem member).1

theorem Tiles.covers (tiles : Tiles size place regions) {i : Nat}
    (low : place ≤ i) (high : i < size) : ∃ region ∈ regions, Inside region i := by
  induction regions generalizing place with
  | nil =>
      have hend : place = size := tiles
      omega
  | cons head regions ih =>
      obtain ⟨first, last⟩ := head
      obtain ⟨rfl, order, later⟩ := tiles
      by_cases within : i ≤ last
      · exact ⟨(first, last), List.mem_cons_self, low, within⟩
      · obtain ⟨region, member, inside⟩ := ih later (by omega)
        exact ⟨region, List.mem_cons_of_mem _ member, inside⟩

/-- A position lies in one region only. -/
theorem Tiles.disjoint (tiles : Tiles size place regions) {first second i : Nat}
    {region other : Nat × Nat} (apart : first ≠ second)
    (hregion : regions[first]? = some region)
    (hother : regions[second]? = some other) (inside : Inside region i) :
    ¬ Inside other i := by
  have hpairwise := List.pairwise_iff_getElem.mp tiles.pairwise
  obtain ⟨hfirst, rfl⟩ := List.getElem?_eq_some_iff.mp hregion
  obtain ⟨hsecond, rfl⟩ := List.getElem?_eq_some_iff.mp hother
  obtain ⟨hlow, hhigh⟩ := inside
  rintro ⟨hlow', hhigh'⟩
  rcases Nat.lt_or_gt_of_ne apart with order | order
  · have hlt := hpairwise first second hfirst hsecond order
    omega
  · have hlt := hpairwise second first hsecond hfirst order
    omega

end RiscosBuilder.Library.Tiling
