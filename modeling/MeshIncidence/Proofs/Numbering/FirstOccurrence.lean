/-
# Values in the order of their first occurrence

Edges and faces are numbered as they are met, so the values that have numbers form
a list without repetitions, and a value's number is its position there. `seenAfter`
is that list: the values seen before, and after them the new ones as they come.
-/

import Mathlib.Data.Finset.Card
import Mathlib.Data.List.TakeWhile

namespace MeshIncidence

variable {α : Type} [DecidableEq α]

/-- The values seen once some more have been met, each at its first occurrence. -/
def seenAfter (seen : List α) : List α → List α
  | [] => seen
  | value :: values =>
    if value ∈ seen then seenAfter seen values else seenAfter (seen ++ [value]) values

theorem seenAfter_append (seen early late : List α) :
    seenAfter seen (early ++ late) = seenAfter (seenAfter seen early) late := by
  induction early generalizing seen with
  | nil => rfl
  | cons value early ih =>
      by_cases hseen : value ∈ seen
      · simp only [List.cons_append, seenAfter, if_pos hseen, ih]
      · simp only [List.cons_append, seenAfter, if_neg hseen, ih]

/-- Values are seen one at a time. -/
theorem seenAfter_cons (seen : List α) (value : α) (values : List α) :
    seenAfter seen (value :: values) = seenAfter (seenAfter seen [value]) values :=
  seenAfter_append seen [value] values

theorem mem_seenAfter {seen values : List α} {value : α} :
    value ∈ seenAfter seen values ↔ value ∈ seen ∨ value ∈ values := by
  induction values generalizing seen with
  | nil => simp [seenAfter]
  | cons first values ih =>
      by_cases hseen : first ∈ seen
      · rw [seenAfter, if_pos hseen, ih, List.mem_cons]
        grind
      · rw [seenAfter, if_neg hseen, ih, List.mem_append, List.mem_singleton, List.mem_cons]
        grind

/-- Values that have all been seen add nothing. -/
theorem seenAfter_eq_self {seen values : List α} (hseen : ∀ value ∈ values, value ∈ seen) :
    seenAfter seen values = seen := by
  induction values with
  | nil => rfl
  | cons value values ih =>
      rw [seenAfter, if_pos (hseen value (by simp))]
      exact ih fun later hlater => hseen later (by simp [hlater])

/-- What repeated values lead to has been seen when they are met again. -/
theorem seenAfter_flatMap_seenAfter {β : Type} [DecidableEq β] (seen : List β)
    (leads : α → List β) (early values : List α) :
    seenAfter seen ((seenAfter early values).flatMap leads) =
      seenAfter seen ((early ++ values).flatMap leads) := by
  induction values generalizing early with
  | nil => rw [seenAfter, List.append_nil]
  | cons value values ih =>
      rw [seenAfter]
      split
      · rename_i hmember
        have hknown : ∀ later ∈ leads value, later ∈ seenAfter seen (early.flatMap leads) :=
          fun later hlater => mem_seenAfter.mpr (.inr (List.mem_flatMap.mpr ⟨value, hmember, hlater⟩))
        rw [ih, List.flatMap_append, List.flatMap_append, List.flatMap_cons, seenAfter_append,
          seenAfter_append, seenAfter_append, seenAfter_eq_self hknown]
      · rw [ih, List.append_assoc, List.singleton_append]

/-- Values met once are met in the order in which they are met first. -/
theorem seenAfter_seenAfter_nil (seen values : List α) :
    seenAfter seen (seenAfter [] values) = seenAfter seen values := by
  have hsame := seenAfter_flatMap_seenAfter seen (fun value => [value]) [] values
  rwa [List.flatMap_singleton', List.nil_append, List.flatMap_singleton'] at hsame

/-- It does not matter if repetitions are left out in parts already. -/
theorem seenAfter_flatMap_nil {β : Type} (seen : List α) (leads : β → List α) (origins : List β) :
    seenAfter seen (origins.flatMap fun origin => seenAfter [] (leads origin)) =
      seenAfter seen (origins.flatMap leads) := by
  induction origins generalizing seen with
  | nil => rfl
  | cons origin origins ih =>
      rw [List.flatMap_cons, List.flatMap_cons, seenAfter_append, seenAfter_append,
        seenAfter_seenAfter_nil, ih]

theorem length_seenAfter_le (seen values : List α) :
    (seenAfter seen values).length ≤ seen.length + values.length := by
  induction values generalizing seen with
  | nil => exact Nat.le_refl _
  | cons value values ih =>
      rw [seenAfter, List.length_cons]
      split
      · have hrest := ih seen
        omega
      · have hrest := ih (seen ++ [value])
        rw [List.length_append, List.length_singleton] at hrest
        omega

theorem nodup_seenAfter {seen : List α} (hnodup : seen.Nodup) (values : List α) :
    (seenAfter seen values).Nodup := by
  induction values generalizing seen with
  | nil => exact hnodup
  | cons value values ih =>
      by_cases hseen : value ∈ seen
      · rw [seenAfter, if_pos hseen]
        exact ih hnodup
      · rw [seenAfter, if_neg hseen]
        exact ih (by simpa using hnodup.concat hseen)

/-- What has been seen stays at its place. -/
theorem isPrefix_seenAfter (seen values : List α) : seen <+: seenAfter seen values := by
  induction values generalizing seen with
  | nil => exact List.prefix_rfl
  | cons value values ih =>
      rw [seenAfter]
      split
      · exact ih seen
      · exact (List.prefix_append seen [value]).trans (ih _)

/-- As many values are seen as there are different ones. -/
theorem length_seenAfter_nil (values : List α) :
    (seenAfter [] values).length = values.toFinset.card := by
  rw [← List.toFinset_card_of_nodup (nodup_seenAfter List.nodup_nil values)]
  congr 1
  ext value
  simp [mem_seenAfter]

/-- A value that is met gets the position that counts the different values met before its first
occurrence. -/
theorem getElem?_seenAfter_concat (values : List α) (value : α) :
    (seenAfter [] (values ++ [value]))[(values.takeWhile (· ≠ value)).toFinset.card]? =
      some value := by
  have hsplit := List.takeWhile_append_dropWhile (p := (· ≠ value)) (l := values)
  generalize hearly : values.takeWhile (· ≠ value) = early at hsplit ⊢
  have hnew : value ∉ early := by
    intro hmember
    rw [← hearly] at hmember
    simpa using List.mem_takeWhile_imp hmember
  obtain ⟨late, hlate⟩ :
      ∃ late, values.dropWhile (· ≠ value) ++ [value] = value :: late := by
    cases hdrop : values.dropWhile (· ≠ value) with
    | nil => exact ⟨[], rfl⟩
    | cons first late =>
        have hhead := List.head_dropWhile_not (p := (· ≠ value)) (l := values) (by rw [hdrop]; simp)
        have hfirst : first = value := by
          simpa only [hdrop, List.head_cons, ne_eq, decide_eq_false_iff_not, not_not] using hhead
        exact ⟨late ++ [value], by rw [hfirst, List.cons_append]⟩
  have hvalues : values ++ [value] = early ++ value :: late := by
    rw [← hsplit, List.append_assoc, hlate]
  rw [hvalues, seenAfter_append, seenAfter, if_neg (by simp [mem_seenAfter, hnew])]
  obtain ⟨rest, hrest⟩ := isPrefix_seenAfter (seenAfter [] early ++ [value]) late
  rw [← hrest, ← length_seenAfter_nil, List.append_assoc,
    List.getElem?_append_right (Nat.le_refl _), Nat.sub_self]
  rfl

/-- How many different values come before the first occurrence of a value. -/
def differentBefore (values : List α) (value : α) : Nat :=
  (values.takeWhile (· ≠ value)).toFinset.card

/-- What comes after the first occurrence of a value does not count. -/
theorem differentBefore_append_cons (early late : List α) (value : α) :
    differentBefore (early ++ value :: late) value = differentBefore early value := by
  rw [differentBefore, differentBefore, List.takeWhile_append]
  split
  · rename_i hall
    rw [List.takeWhile_cons_of_neg (by simp), List.append_nil,
      (List.takeWhile_prefix _).eq_of_length hall]
  · rfl

/-- What comes after a value that was met does not count. -/
theorem differentBefore_append_of_mem {early : List α} {value : α} (hmember : value ∈ early)
    (late : List α) : differentBefore (early ++ late) value = differentBefore early value := by
  obtain ⟨before, after, rfl⟩ := List.append_of_mem hmember
  rw [List.append_assoc, List.cons_append, differentBefore_append_cons,
    differentBefore_append_cons]

/-- Before a value that was never met come all others. -/
theorem differentBefore_of_notMem {values : List α} {value : α} (hmissing : value ∉ values) :
    differentBefore values value = values.toFinset.card := by
  have hall : ∀ other ∈ values, other ≠ value := fun other hother hequal =>
    hmissing (hequal ▸ hother)
  rw [differentBefore, List.takeWhile_eq_self_iff.mpr (by simpa using hall)]

/-- A value that was met is seen at the position that counts the different ones before it. -/
theorem getElem?_seenAfter_differentBefore {values : List α} {value : α}
    (hmember : value ∈ values) :
    (seenAfter [] values)[differentBefore values value]? = some value := by
  have hposition := getElem?_seenAfter_concat values value
  rwa [seenAfter_append, seenAfter, if_pos (mem_seenAfter.mpr (.inr hmember))] at hposition

/-- No two values, one of which was met, come after the same number of others. -/
theorem differentBefore_inj {values : List α} {value other : α} (hmember : value ∈ values) :
    differentBefore values value = differentBefore values other ↔ value = other := by
  refine ⟨fun hsame => ?_, fun hequal => hequal ▸ rfl⟩
  have hposition := getElem?_seenAfter_differentBefore hmember
  by_cases hother : other ∈ values
  · rw [hsame, getElem?_seenAfter_differentBefore hother] at hposition
    exact (Option.some.inj hposition).symm
  · rw [hsame, differentBefore_of_notMem hother, ← length_seenAfter_nil,
      List.getElem?_eq_none (Nat.le_refl _)] at hposition
    cases hposition

/-- The values once each, in the order of their first occurrence. -/
structure KeepsFirst (values kept : List α) : Prop where
  nodup : kept.Nodup
  mem_iff : ∀ value, value ∈ kept ↔ value ∈ values
  /-- As many values come before a value as there are different ones before its first occurrence. -/
  getElem?_eq : ∀ value ∈ values, kept[differentBefore values value]? = some value

theorem keepsFirst_seenAfter (values : List α) : KeepsFirst values (seenAfter [] values) where
  nodup := nodup_seenAfter List.nodup_nil values
  mem_iff value := by simp [mem_seenAfter]
  getElem?_eq _ hmember := getElem?_seenAfter_differentBefore hmember

/-- Values may be seen under names, one for each. -/
theorem seenAfter_map {β : Type} [DecidableEq β] {name : α → β} (hname : Function.Injective name)
    (seen values : List α) :
    seenAfter (seen.map name) (values.map name) = (seenAfter seen values).map name := by
  induction values generalizing seen with
  | nil => rfl
  | cons value values ih =>
      simp only [List.map_cons, seenAfter, List.mem_map_of_injective hname]
      split
      · exact ih seen
      · rw [← ih, List.map_append]
        rfl

/-- In a list without repetitions a value has one position, where it is found. -/
theorem idxOf?_eq_some_iff_getElem? {γ : Type} [BEq γ] [LawfulBEq γ] {values : List γ}
    (hnodup : values.Nodup) {value : γ} {position : Nat} :
    values.idxOf? value = some position ↔ values[position]? = some value := by
  rw [List.idxOf?_eq_some_iff, List.getElem?_eq_some_iff]
  constructor
  · rintro ⟨hlt, hvalue, -⟩
    exact ⟨hlt, hvalue⟩
  · rintro ⟨hlt, hvalue⟩
    refine ⟨hlt, hvalue, fun earlier hearlier hsame => ?_⟩
    have hequal := hnodup.getElem_inj_iff.mp (hsame.trans hvalue.symm)
    omega

end MeshIncidence
