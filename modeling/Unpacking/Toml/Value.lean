import Unpacking.Toml.Scalar

/-!
The values of TOML, and how tables grow while a document is read: a table may be opened by a
header once, and dotted keys only add to tables that dotted keys have made.
-/

namespace Unpacking.Toml

open Text

/-- How a table came into being. -/
inductive TableOrigin where
  /-- By a header of its own, or as the whole document. -/
  | header
  /-- On the way to the table of a header. -/
  | passing
  /-- On the way to the last part of a dotted key. -/
  | dotted
  /-- In braces, where nothing can be added later. -/
  | inline
deriving DecidableEq, Repr

/-- A value. -/
inductive Value where
  | text (text : Text)
  | integer (value : Int)
  | float
  | boolean (value : Bool)
  | datetime
  | array (items : List Value)
  /-- An array of tables that headers have made. -/
  | tables (items : List Value)
  | table (origin : TableOrigin) (entries : List (Text × Value))
deriving Repr

/-- The entries of a table. -/
abbrev Entries := List (Text × Value)

/-- Put a value in place of the one of its name, or behind all others. -/
def Entries.put (name : Text) (value : Value) : Entries → Entries
  | [] => [(name, value)]
  | (other, old) :: rest =>
    if other == name then (name, value) :: rest else (other, old) :: Entries.put name value rest

/-- Change the table at the end of a path. Tables that are not there are made on the way. -/
def update (dotted : Bool) (change : TableOrigin → Entries → Option Entries) :
    List Text → TableOrigin → Entries → Option Entries
  | [], origin, entries => change origin entries
  | name :: path, _, entries =>
    match entries.lookup name with
    | none => do
      let made := if dotted then .dotted else .passing
      let inner ← update dotted change path made []
      pure (Entries.put name (.table made inner) entries)
    | some (.table origin found) =>
      if origin == .inline || (dotted && origin == .header) then none
      else do
        let inner ← update dotted change path origin found
        pure (Entries.put name (.table origin inner) entries)
    | some (.tables items) =>
      match items.getLast? with
      | some (.table origin found) => do
        let inner ← update dotted change path origin found
        pure (Entries.put name (.tables (items.dropLast ++ [.table origin inner])) entries)
      | _ => none
    | some _ => none

/-- Add a value under a dotted key to a table. -/
def insert (path : List Text) (name : Text) (value : Value) (origin : TableOrigin)
    (entries : Entries) : Option Entries :=
  update true (fun reached found =>
    if !path.isEmpty && reached != .dotted then none
    else if (found.lookup name).isSome then none
    else some (found ++ [(name, value)])) path origin entries

/-- Add a value under a dotted key to the table of a header. -/
def insertBelow (header path : List Text) (name : Text) (value : Value) (entries : Entries) :
    Option Entries :=
  update false (insert path name value) header .header entries

/-- Open the table of a header. -/
def openTable (path : List Text) (name : Text) (entries : Entries) : Option Entries :=
  update false (fun _ found =>
    match found.lookup name with
    | none => some (found ++ [(name, .table .header [])])
    | some (.table .passing inner) => some (Entries.put name (.table .header inner) found)
    | some _ => none) path .header entries

/-- Open one more table of an array. -/
def openElement (path : List Text) (name : Text) (entries : Entries) : Option Entries :=
  update false (fun _ found =>
    match found.lookup name with
    | none => some (found ++ [(name, .tables [.table .header []])])
    | some (.tables items) =>
      some (Entries.put name (.tables (items ++ [.table .header []])) found)
    | some _ => none) path .header entries

end Unpacking.Toml
