/-
# Names in set files

A name is written as it is and read as a line, from its first character that is no blank. The
reader leaves out a carriage return before the line feed, whether the line or the name ended in
it. So a name that was read comes back with one carriage return less at its end, if it has any:
after as many rounds as it has of them it does not change any more.
-/

import MeshIncidence.SetCatalog.NamedSet
import MeshIncidence.Proofs.SetFile.Reading
import Mathlib.Data.List.DropRight

namespace MeshIncidence

/-- Number of carriage returns at the end of a line. -/
def endReturns (line : List Char) : Nat := (line.rtakeWhile (· == '\r')).length

theorem endReturns_append_return (line : List Char) :
    endReturns (line ++ ['\r']) = endReturns line + 1 := by
  rw [endReturns, List.rtakeWhile_concat_pos _ _ _ rfl, List.length_append, List.length_singleton]
  rfl

theorem endReturns_append {c : Char} (hc : c ≠ '\r') (line : List Char) :
    endReturns (line ++ [c]) = 0 := by
  rw [endReturns, List.rtakeWhile_concat_neg _ _ _ (by simpa using hc), List.length_nil]

theorem withoutReturn_eq_self {line : List Char} (hreturns : endReturns line = 0) :
    withoutReturn line = line := by
  rw [withoutReturn, if_neg]
  intro hlast
  rw [← List.dropLast_append_getLast? '\r' hlast, endReturns_append_return] at hreturns
  exact Nat.succ_ne_zero _ hreturns

theorem endReturns_withoutReturn (line : List Char) :
    endReturns (withoutReturn line) = endReturns line - 1 := by
  rcases List.eq_nil_or_concat' line with rfl | ⟨front, last, rfl⟩
  · rfl
  · by_cases hlast : last = '\r'
    · subst hlast
      rw [withoutReturn_append_return, endReturns_append_return, Nat.add_sub_cancel]
    · have hnone := endReturns_append hlast front
      rw [withoutReturn_eq_self hnone, hnone]

/-- A line that a reader may find as a name. -/
structure IsNameLine (line : List Char) : Prop where
  ne_nil : line ≠ []
  no_feed : '\n' ∉ line
  first_not_blank : line.head?.any isBlank = false

/-- Without its carriage return it may be found again: a carriage return alone would be a blank. -/
theorem IsNameLine.withoutReturn {line : List Char} (hname : IsNameLine line) :
    IsNameLine (withoutReturn line) := by
  rcases List.eq_nil_or_concat' line with rfl | ⟨front, last, rfl⟩
  · exact hname
  · by_cases hlast : last = '\r'
    · subst hlast
      rw [withoutReturn_append_return]
      have hne : front ≠ [] := by
        rintro rfl
        exact absurd hname.first_not_blank (by decide)
      refine ⟨hne, fun hmem => hname.no_feed (List.mem_append_left _ hmem), ?_⟩
      rw [← List.head?_append_of_ne_nil front hne]
      exact hname.first_not_blank
    · rwa [withoutReturn_eq_self (endReturns_append hlast front)]

namespace NamedSet

variable {α : Type}

/-- A set as it is read back. -/
def readBack (set : NamedSet α) : NamedSet α :=
  ⟨String.ofList (withoutReturn set.name.toList), set.members⟩

theorem readBack_eq_self {set : NamedSet α} (hreturns : endReturns set.name.toList = 0) :
    set.readBack = set := by
  rw [readBack, withoutReturn_eq_self hreturns, String.ofList_toList]

end NamedSet

namespace SetsByKind

variable {α : Type} {sets : SetsByKind α}

/-- Sets as they are read back. -/
def readBack (sets : SetsByKind α) : SetsByKind α where
  vertex := sets.vertex.map NamedSet.readBack
  edge := sets.edge.map NamedSet.readBack
  face := sets.face.map NamedSet.readBack
  element := sets.element.map NamedSet.readBack

@[simp]
theorem get_readBack (sets : SetsByKind α) (kind : Kind) :
    sets.readBack.get kind = (sets.get kind).map NamedSet.readBack := by
  cases kind <;> rfl

@[simp]
theorem count_readBack (sets : SetsByKind α) (kind : Kind) :
    sets.readBack.count kind = sets.count kind := by
  rw [count, count, get_readBack, List.length_map]

theorem readBack_eq_self
    (hreturns : ∀ kind, ∀ set ∈ sets.get kind, endReturns set.name.toList = 0) :
    sets.readBack = sets := by
  apply PerKind.ext_get
  intro kind
  rw [get_readBack]
  exact (List.map_congr_left fun set hset =>
    NamedSet.readBack_eq_self (hreturns kind set hset)).trans (List.map_id _)

/-- Each round takes a carriage return from every name that ends in one. -/
theorem endReturns_of_mem_iterate {rounds most : Nat}
    (hmost : ∀ kind, ∀ set ∈ sets.get kind, endReturns set.name.toList ≤ most) :
    ∀ kind, ∀ set ∈ (readBack^[rounds] sets).get kind,
      endReturns set.name.toList ≤ most - rounds := by
  induction rounds with
  | zero => exact hmost
  | succ rounds ih =>
      intro kind set hset
      rw [Function.iterate_succ_apply', get_readBack] at hset
      obtain ⟨before, hbefore, rfl⟩ := List.mem_map.mp hset
      have hless := ih kind before hbefore
      rw [NamedSet.readBack, String.toList_ofList, endReturns_withoutReturn]
      omega

end SetsByKind

end MeshIncidence
