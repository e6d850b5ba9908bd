/-
# Lattices of vertices

The vertices of a grid stand on the points of a box, and its elements on those of a smaller
one. Points are numbered along the first direction first; the number of a point tells the
point, and it grows with every coordinate.

Edges and faces of a grid are cubes of one and two directions: from a lowest point on, a step
at most one long in each direction. A cube is told by the numbers of its lowest and its
highest point, and the cubes in a box are counted by their steps.
-/

import MeshIncidence.Proofs.Refinement.Extremes
import Mathlib.Data.List.Nodup
import Mathlib.Data.List.ProdSigma

namespace MeshIncidence

/-- A point of a lattice; also the number of points that a box has in each direction. -/
@[ext]
structure LatticePoint where
  x : Nat
  y : Nat
  z : Nat
deriving DecidableEq, Repr

namespace LatticePoint

instance : Add LatticePoint := ⟨fun p q => ⟨p.x + q.x, p.y + q.y, p.z + q.z⟩⟩

@[simp] theorem add_x (p q : LatticePoint) : (p + q).x = p.x + q.x := rfl
@[simp] theorem add_y (p q : LatticePoint) : (p + q).y = p.y + q.y := rfl
@[simp] theorem add_z (p q : LatticePoint) : (p + q).z = p.z + q.z := rfl

protected theorem add_assoc (p q r : LatticePoint) : p + q + r = p + (q + r) := by
  ext <;> simp [Nat.add_assoc]

theorem add_left_cancel {p q r : LatticePoint} (hequal : p + q = p + r) : q = r := by
  rw [LatticePoint.ext_iff] at hequal ⊢
  simpa using hequal

/-- The point lies in the box with so many points in each direction. -/
structure Within (p counts : LatticePoint) : Prop where
  x_lt : p.x < counts.x
  y_lt : p.y < counts.y
  z_lt : p.z < counts.z

/-- The points of a box, along the first direction first. -/
def box (counts : LatticePoint) : List LatticePoint :=
  (List.range counts.z ×ˢ (List.range counts.y ×ˢ List.range counts.x)).map
    fun (z, y, x) => ⟨x, y, z⟩

/-- How many points a box has. -/
def volume (counts : LatticePoint) : Nat := counts.x * counts.y * counts.z

variable {counts p q low step : LatticePoint}

theorem mem_box : p ∈ counts.box ↔ p.Within counts := by
  simp only [box, List.mem_map, List.mem_product, List.mem_range, Prod.exists]
  constructor
  · rintro ⟨z, y, x, ⟨hz, hy, hx⟩, rfl⟩
    exact ⟨hx, hy, hz⟩
  · rintro ⟨hx, hy, hz⟩
    exact ⟨p.z, p.y, p.x, ⟨hz, hy, hx⟩, rfl⟩

theorem nodup_box (counts : LatticePoint) : counts.box.Nodup := by
  apply List.Nodup.map
  · rintro ⟨z, y, x⟩ ⟨z', y', x'⟩ hequal
    simp only [LatticePoint.mk.injEq] at hequal
    simp [hequal]
  · exact List.nodup_range.product (List.nodup_range.product List.nodup_range)

/-- Going through a box is going through layers, rows and points. -/
theorem map_box {α : Type} (image : LatticePoint → α) (counts : LatticePoint) :
    counts.box.map image = (List.range counts.z).flatMap fun z =>
      (List.range counts.y).flatMap fun y => (List.range counts.x).map fun x => image ⟨x, y, z⟩ := by
  simp [box, SProd.sprod, List.product, List.map_flatMap, Function.comp_def]

theorem length_box (counts : LatticePoint) : counts.box.length = counts.volume := by
  simp only [box, volume, List.length_map, List.length_product, List.length_range]
  rw [Nat.mul_comm counts.z, Nat.mul_comm counts.y]

/-- The number of a point in a box. -/
def number (counts p : LatticePoint) : Nat := (p.z * counts.y + p.y) * counts.x + p.x

theorem eq_of_mul_add_eq {n a b c d : Nat} (hb : b < n) (hd : d < n)
    (hequal : a * n + b = c * n + d) : a = c ∧ b = d := by
  have hpositive := Nat.zero_lt_of_lt hb
  have hfirst : (a * n + b) / n = a ∧ (a * n + b) % n = b :=
    (Nat.div_mod_unique hpositive).mpr ⟨by rw [Nat.add_comm, Nat.mul_comm], hb⟩
  have hsecond : (c * n + d) / n = c ∧ (c * n + d) % n = d :=
    (Nat.div_mod_unique hpositive).mpr ⟨by rw [Nat.add_comm, Nat.mul_comm], hd⟩
  rw [hequal] at hfirst
  exact ⟨hfirst.1.symm.trans hsecond.1, hfirst.2.symm.trans hsecond.2⟩

theorem mul_add_lt_mul {n m a b : Nat} (ha : a < m) (hb : b < n) : a * n + b < m * n :=
  calc
    a * n + b < a * n + n := Nat.add_lt_add_left hb _
    _ = (a + 1) * n := (Nat.succ_mul a n).symm
    _ ≤ m * n := Nat.mul_le_mul_right n ha

/-- Points of a box have different numbers. -/
theorem number_inj (hp : p.Within counts) (hq : q.Within counts)
    (hequal : counts.number p = counts.number q) : p = q := by
  obtain ⟨hrow, hx⟩ := eq_of_mul_add_eq hp.x_lt hq.x_lt hequal
  obtain ⟨hz, hy⟩ := eq_of_mul_add_eq hp.y_lt hq.y_lt hrow
  exact LatticePoint.ext hx hy hz

theorem number_lt (hp : p.Within counts) : counts.number p < counts.volume := by
  have hlt := mul_add_lt_mul (mul_add_lt_mul hp.z_lt hp.y_lt) hp.x_lt
  rwa [Nat.mul_comm (counts.z * counts.y), Nat.mul_comm counts.z, ← Nat.mul_assoc] at hlt

theorem number_le_number_add (counts p q : LatticePoint) : counts.number p ≤ counts.number (p + q) := by
  have hlayer : p.z * counts.y ≤ (p + q).z * counts.y :=
    Nat.mul_le_mul_right _ (Nat.le_add_right _ _)
  have hrow : p.z * counts.y + p.y ≤ (p + q).z * counts.y + (p + q).y :=
    Nat.add_le_add hlayer (Nat.le_add_right _ _)
  exact Nat.add_le_add (Nat.mul_le_mul_right _ hrow) (Nat.le_add_right _ _)

/-- The points reached from a lowest one by a step or less in each direction. -/
def cube (low step : LatticePoint) : List LatticePoint :=
  (box ⟨step.x + 1, step.y + 1, step.z + 1⟩).map (low + ·)

/-- A point of a cube is above its lowest point and below its highest. -/
theorem exists_add_of_mem_cube (hq : q ∈ cube low step) :
    (∃ above, q = low + above) ∧ ∃ above, low + step = q + above := by
  obtain ⟨offset, hoffset, rfl⟩ := List.mem_map.mp hq
  obtain ⟨hx, hy, hz⟩ := mem_box.mp hoffset
  simp only at hx hy hz
  refine ⟨⟨offset, rfl⟩,
    ⟨⟨step.x - offset.x, step.y - offset.y, step.z - offset.z⟩, ?_⟩⟩
  ext <;> simp <;> omega

theorem low_mem_cube (low step : LatticePoint) : low ∈ cube low step := by
  refine List.mem_map.mpr ⟨⟨0, 0, 0⟩, mem_box.mpr ⟨?_, ?_, ?_⟩, by ext <;> simp⟩ <;> simp

theorem high_mem_cube (low step : LatticePoint) : low + step ∈ cube low step := by
  refine List.mem_map.mpr ⟨step, mem_box.mpr ⟨?_, ?_, ?_⟩, rfl⟩ <;> simp

theorem map_add_cube (p low step : LatticePoint) :
    (cube low step).map (p + ·) = cube (p + low) step := by
  rw [cube, cube, List.map_map]
  exact List.map_congr_left fun offset _ => (LatticePoint.add_assoc p low offset).symm

/-- The numbers of the points of a cube. -/
def cubeNumbers (counts low step : LatticePoint) : List Nat := (cube low step).map counts.number

/-- The lowest and the highest point have the smallest and the largest number. -/
theorem extremes_cubeNumbers (counts low step : LatticePoint) :
    extremes (counts.cubeNumbers low step) = (counts.number low, counts.number (low + step)) := by
  apply extremes_eq (List.mem_map_of_mem (low_mem_cube low step))
    (List.mem_map_of_mem (high_mem_cube low step))
  intro number hnumber
  obtain ⟨q, hq, rfl⟩ := List.mem_map.mp hnumber
  obtain ⟨⟨above, habove⟩, rest, hrest⟩ := exists_add_of_mem_cube hq
  rw [hrest]
  refine ⟨?_, number_le_number_add counts q rest⟩
  rw [habove]
  exact number_le_number_add counts low above

/-- The cubes in a box with given steps, each by its lowest point and its step. -/
def cells (counts : LatticePoint) (steps : List LatticePoint) :
    List (LatticePoint × LatticePoint) :=
  steps.flatMap fun step =>
    (box ⟨counts.x - step.x, counts.y - step.y, counts.z - step.z⟩).map fun low => (low, step)

variable {steps : List LatticePoint}

theorem mem_cells : (low, step) ∈ counts.cells steps ↔
    step ∈ steps ∧ (low + step).Within counts := by
  simp only [cells, List.mem_flatMap, List.mem_map, Prod.mk.injEq]
  constructor
  · rintro ⟨_, hstep, _, hlow, rfl, rfl⟩
    obtain ⟨hx, hy, hz⟩ := mem_box.mp hlow
    simp only at hx hy hz
    exact ⟨hstep, by simp; omega, by simp; omega, by simp; omega⟩
  · rintro ⟨hstep, hx, hy, hz⟩
    simp only [add_x, add_y, add_z] at hx hy hz
    refine ⟨step, hstep, low, mem_box.mpr ⟨?_, ?_, ?_⟩, rfl, rfl⟩ <;> simp only <;> omega

theorem nodup_cells (hsteps : steps.Nodup) : (counts.cells steps).Nodup := by
  rw [cells, List.nodup_flatMap]
  constructor
  · intro step _
    exact (nodup_box _).map fun _ _ hequal => (Prod.mk.inj hequal).1
  · refine hsteps.imp fun {first second} hne => ?_
    refine List.disjoint_left.mpr ?_
    rintro _ hfirst hsecond
    obtain ⟨low, -, rfl⟩ := List.mem_map.mp hfirst
    obtain ⟨other, -, hequal⟩ := List.mem_map.mp hsecond
    exact hne (Prod.mk.inj hequal).2.symm

theorem length_cells (counts : LatticePoint) (steps : List LatticePoint) :
    (counts.cells steps).length = (steps.map fun step =>
      volume ⟨counts.x - step.x, counts.y - step.y, counts.z - step.z⟩).sum := by
  simp only [cells, List.length_flatMap, List.length_map, length_box]

/-- Cubes in a box differ in the numbers of their lowest or their highest points. -/
theorem cells_inj {first second : LatticePoint × LatticePoint} (hfirst : first ∈ counts.cells steps)
    (hsecond : second ∈ counts.cells steps)
    (hequal : extremes (counts.cubeNumbers first.1 first.2) =
      extremes (counts.cubeNumbers second.1 second.2)) : first = second := by
  have hhigh := (mem_cells.mp hfirst).2
  have hotherHigh := (mem_cells.mp hsecond).2
  have hlow {low step : LatticePoint} (hwithin : (low + step).Within counts) :
      low.Within counts := by
    obtain ⟨hx, hy, hz⟩ := hwithin
    simp only [add_x, add_y, add_z] at hx hy hz
    exact ⟨by omega, by omega, by omega⟩
  rw [extremes_cubeNumbers, extremes_cubeNumbers, Prod.mk.injEq] at hequal
  have hlows := number_inj (hlow hhigh) (hlow hotherHigh) hequal.1
  have hhighs := number_inj hhigh hotherHigh hequal.2
  rw [hlows] at hhighs
  exact Prod.ext hlows (LatticePoint.add_left_cancel hhighs)

end LatticePoint

end MeshIncidence
