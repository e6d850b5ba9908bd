/-
# Serialized values

Tables, kinds and shapes can be handed over as data: a value made of nulls,
truth values, numbers, texts, lists and records. `Datum` is such a value, and
the functions below say which data stand for what. A datum can be of the wrong
form altogether, or have the right form and describe a table that has a defect;
only in the second case there is a cause to report.

Numbers that are not written as unsigned integers stand for nothing here, so
`Datum.otherNumber` does not say which one it is.
-/

import MeshIncidence.IncidenceTable.Basic

namespace MeshIncidence

/-- A value to be read as a table, a kind or a shape. -/
inductive Datum
  | null
  | truth (value : Bool)
  /-- A number written as digits only. -/
  | natural (value : Nat)
  /-- A number with a sign, a fraction or an exponent. -/
  | otherNumber
  | text (value : String)
  | list (items : List Datum)
  | record (fields : List (String × Datum))
deriving Inhabited

/-- Why a datum stands for nothing. -/
inductive DatumError
  /-- It is of the wrong form. -/
  | form
  /-- It has the right form, but what it describes is refused. -/
  | refused (error : Error)
deriving DecidableEq, Repr

namespace Datum

/-- A machine word. -/
def asWord : Datum → Except DatumError Nat
  | natural value => if value < wordBound then .ok value else .error .form
  | _ => .error .form

/-- A list of machine words. -/
def asWords : Datum → Except DatumError (List Nat)
  | list items => items.mapM asWord
  | _ => .error .form

/-- A value that may be absent: null stands for its absence. -/
def asOption {α : Type} (read : Datum → Except DatumError α) :
    Datum → Except DatumError (Option α)
  | null => .ok none
  | datum => (read datum).map some

/-- The value of a field; of two fields with one name the later one counts. -/
def field? (name : String) (fields : List (String × Datum)) : Option Datum :=
  fields.reverse.lookup name

/-- The name of one of some alternatives: a text, or a record with that name as its
only field and nothing in it. -/
def asAlternative : Datum → Except DatumError String
  | text name => .ok name
  | record [(name, null)] => .ok name
  | _ => .error .form

/-- One of some alternatives that are known by their names. -/
def asOneOf {α : Type} (ofName? : String → Option α) (datum : Datum) :
    Except DatumError α := do
  match ofName? (← datum.asAlternative) with
  | some value => return value
  | none => throw .form

/-- A kind of entity. -/
def asKind : Datum → Except DatumError Kind := asOneOf Kind.ofName?

/-- A shape of elements. -/
def asShape : Datum → Except DatumError CellShape := asOneOf CellShape.ofName?

/-- A table from the data of its offsets, columns and fill counters, if these lay
out a table. -/
def asTableOf (offsets columns fill : Datum) : Except DatumError IncidenceTable := do
  let offsets ← offsets.asWords
  let columns ← columns.asWords
  let fill ← asOption asWords fill
  let table : IncidenceTable := ⟨offsets.toArray, columns.toArray, fill.map List.toArray⟩
  match table.defect? with
  | none => return table
  | some error => throw (.refused error)

/-- A table: a record of its parts, of which the fill counters may be left out, or
a list of all three. -/
def asTable : Datum → Except DatumError IncidenceTable
  | record fields =>
    match field? "offsets" fields, field? "columns" fields with
    | some offsets, some columns =>
      asTableOf offsets columns ((field? "fill" fields).getD null)
    | _, _ => .error .form
  | list [offsets, columns, fill] => asTableOf offsets columns fill
  | _ => .error .form

end Datum

end MeshIncidence
