/-
# Positions of children

`firstChildrenFirst` lays families out twice over: in a refined mesh for the
elements, in a refined set for the members. If every family has `extra + 1`
children, the first child of family `i` is at position `i`, and child `m + 1` at
position `n + extra * i + m` after all `n` first children.

Apart from the order, the layout holds the children of all families, each as often
as the families do.
-/

import MeshIncidence.Mesh.Refinement
import Mathlib.Data.List.Basic

namespace MeshIncidence

variable {α : Type}

/-- In blocks of one size the block number and the place in the block give the
position. -/
theorem getElem?_flatten_of_length {blocks : List (List α)} {size : Nat}
    (hsize : ∀ block ∈ blocks, block.length = size) {number place : Nat} {block : List α}
    (hblock : blocks[number]? = some block) (hplace : place < size) :
    blocks.flatten[size * number + place]? = block[place]? := by
  induction blocks generalizing number with
  | nil => simp at hblock
  | cons first rest ih =>
      have hfirst := hsize first (by simp)
      cases number with
      | zero =>
          obtain rfl : first = block := by simpa using hblock
          rw [List.flatten_cons, List.getElem?_append_left (by omega), Nat.mul_zero, Nat.zero_add]
      | succ number =>
          have hrest := ih (fun other hother => hsize other (by simp [hother]))
            (by simpa using hblock)
          rw [List.flatten_cons, List.getElem?_append_right (by rw [Nat.mul_succ]; omega), ← hrest]
          congr 1
          rw [Nat.mul_succ]
          omega

variable {families : List (List α)} {extra : Nat}

/-- Every family has one child more than `extra`. -/
def HaveExtra (families : List (List α)) (extra : Nat) : Prop :=
  ∀ family ∈ families, family.length = extra + 1

namespace HaveExtra

theorem length_filterMap_head? (hextra : HaveExtra families extra) :
    (families.filterMap List.head?).length = families.length := by
  induction families with
  | nil => rfl
  | cons family families ih =>
      have hrest := ih fun other hother => hextra other (by simp [hother])
      cases family with
      | nil => exact absurd (hextra [] (by simp)) (by simp)
      | cons first others => simpa using hrest

theorem getElem?_filterMap_head? (hextra : HaveExtra families extra) {number : Nat}
    {family : List α} (hfamily : families[number]? = some family) :
    (families.filterMap List.head?)[number]? = family[0]? := by
  induction families generalizing number with
  | nil => simp at hfamily
  | cons first families ih =>
      cases first with
      | nil => exact absurd (hextra [] (by simp)) (by simp)
      | cons child others =>
          cases number with
          | zero =>
              obtain rfl : child :: others = family := by simpa using hfamily
              rfl
          | succ number =>
              simpa using ih (fun other hother => hextra other (by simp [hother]))
                (by simpa using hfamily)

/-- The first child of a family stands at the family's number. -/
theorem getElem?_first (hextra : HaveExtra families extra) {number : Nat} {family : List α}
    (hfamily : families[number]? = some family) :
    (firstChildrenFirst families)[number]? = family[0]? := by
  obtain ⟨hlt, -⟩ := List.getElem?_eq_some_iff.mp hfamily
  rw [← hextra.length_filterMap_head?] at hlt
  rw [firstChildrenFirst, List.getElem?_append_left hlt]
  exact hextra.getElem?_filterMap_head? hfamily

/-- The other children of a family stand together, after those of earlier families. -/
theorem getElem?_other (hextra : HaveExtra families extra) {number place : Nat}
    {family : List α} (hfamily : families[number]? = some family) (hplace : place < extra) :
    (firstChildrenFirst families)[families.length + (extra * number + place)]? =
      family[place + 1]? := by
  have htails : ∀ block ∈ families.map List.tail, block.length = extra := by
    intro block hblock
    obtain ⟨other, hother, rfl⟩ := List.mem_map.mp hblock
    rw [List.length_tail, hextra other hother, Nat.add_sub_cancel]
  have htail : (families.map List.tail)[number]? = some family.tail := by
    rw [List.getElem?_map, hfamily, Option.map_some]
  rw [firstChildrenFirst, List.getElem?_append_right (by rw [hextra.length_filterMap_head?]; omega),
    hextra.length_filterMap_head?, Nat.add_sub_cancel_left, List.flatMap_def,
    getElem?_flatten_of_length htails htail hplace, List.getElem?_tail]

theorem length_firstChildrenFirst (hextra : HaveExtra families extra) :
    (firstChildrenFirst families).length = (extra + 1) * families.length := by
  have htails : (families.flatMap List.tail).length = extra * families.length := by
    rw [List.flatMap_def, List.length_flatten, List.map_map]
    rw [List.map_congr_left (g := fun _ => extra) fun family hfamily => by
      simp [hextra family hfamily]]
    simp [Nat.mul_comm]
  rw [firstChildrenFirst, List.length_append, hextra.length_filterMap_head?, htails,
    Nat.add_mul, Nat.one_mul, Nat.add_comm]

end HaveExtra

/-- The layout holds the children of all families. -/
theorem firstChildrenFirst_perm (families : List (List α)) :
    (firstChildrenFirst families).Perm families.flatten := by
  induction families with
  | nil => exact List.Perm.refl _
  | cons family families ih =>
      cases family with
      | nil => exact ih
      | cons first others =>
          have hmoved : (families.filterMap List.head? ++ (others ++ families.flatMap List.tail)).Perm
              (others ++ firstChildrenFirst families) := by
            rw [firstChildrenFirst, ← List.append_assoc, ← List.append_assoc]
            exact List.perm_append_comm.append_right _
          exact (hmoved.trans (ih.append_left others)).cons first

theorem mem_firstChildrenFirst {child : α} :
    child ∈ firstChildrenFirst families ↔ ∃ family ∈ families, child ∈ family := by
  rw [(firstChildrenFirst_perm families).mem_iff, List.mem_flatten]

end MeshIncidence
