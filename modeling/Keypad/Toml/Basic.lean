import Keypad.Decimal.Basic

/-!
# TOML documents

A document is a sequence of statements: assignments and headers.  Tables remember how they came
about, since that decides what may still be added to them.

## Main definitions

* `Toml.Value`, `Toml.Statement`
* `Toml.assign?`: an assignment inside a table
* `Toml.open?`, `Toml.openRow?`: table headers
* `Toml.build?`: the table a document denotes

## Main results

* `assign?_of_mem`: no key is assigned twice
-/

namespace Keypad.Toml

/-- How a table came about. -/
inductive Origin where
  /-- Written in braces; closed. -/
  | inline
  /-- Opened by a header of its own. -/
  | header
  /-- On the way to a longer header; may still get a header of its own. -/
  | implied
  /-- On the way of a dotted key; may get further dotted keys, but no header. -/
  | dotted
  deriving DecidableEq, Repr

/-- A value. -/
inductive Value where
  | text (content : Text)
  | integer (value : Int)
  | real (value : Binary64)
  | boolean (value : Bool)
  /-- A date, a time or both, as written. -/
  | moment (written : Text)
  | list (items : List Value)
  | table (origin : Origin) (entries : List (Text × Value))
  /-- The tables of a repeated header. -/
  | rows (tables : List (List (Text × Value)))

/-- The entries of a table, in the order of their keys' first appearance. -/
abbrev Entries := List (Text × Value)

/-- A statement of a document. -/
inductive Statement where
  | assignment (path : List Text) (key : Text) (value : Value)
  | header (path : List Text) (key : Text)
  | rowHeader (path : List Text) (key : Text)

/-- The value of a key. -/
def get? (entries : Entries) (key : Text) : Option Value :=
  (entries.find? fun entry => entry.1 == key).map (·.2)

/-- The entries with the value of a key replaced, or the key added at the end. -/
def set (entries : Entries) (key : Text) (value : Value) : Entries :=
  match entries with
  | [] => [(key, value)]
  | entry :: rest =>
    if entry.1 == key then (key, value) :: rest else entry :: set rest key value

/-- The entries with one more key, which must be new. -/
def insert? (entries : Entries) (key : Text) (value : Value) : Option Entries :=
  if (get? entries key).isSome then none else some (entries ++ [(key, value)])

/-- A table of nested tables along a path of keys, with one assignment at its end. -/
def nest : (path : List Text) → (key : Text) → Value → Entries
  | [], key, value => [(key, value)]
  | step :: path, key, value => [(step, .table .dotted (nest path key value))]

/-- Changes the last of some tables. -/
def changeLast? (change : Entries → Option Entries) : List Entries → Option (List Entries)
  | [] => none
  | [last] => (change last).map fun entries => [entries]
  | row :: rest => (changeLast? change rest).map (row :: ·)

/-- Assigns a value along a dotted path.  Tables on the path are made if they are missing; tables
with a header or braces of their own take no dotted keys, and a table that is only implied by
longer headers may be passed through but not assigned to. -/
def assign? (entries : Entries) : (path : List Text) → (key : Text) → Value → Option Entries
  | [], key, value => insert? entries key value
  | step :: path, key, value =>
    match get? entries step with
    | none => some (set entries step (.table .dotted (nest path key value)))
    | some (.table .dotted inner) =>
      (assign? inner path key value).map fun inner => set entries step (.table .dotted inner)
    | some (.table .implied inner) =>
      if path.isEmpty then none
      else (assign? inner path key value).map fun inner => set entries step (.table .implied inner)
    | some (.rows tables) =>
      if path.isEmpty then none
      else
        (changeLast? (fun inner => assign? inner path key value) tables).map fun tables =>
          set entries step (.rows tables)
    | some _ => none

/-- Changes the table at the end of a path of headers.  Missing tables on the way are implied, and
of repeated tables the last is meant. -/
def within? (change : Entries → Option Entries) (entries : Entries) :
    (path : List Text) → Option Entries
  | [] => change entries
  | step :: path =>
    match get? entries step with
    | none => (within? change [] path).map fun inner => set entries step (.table .implied inner)
    | some (.table .inline _) => none
    | some (.table origin inner) =>
      (within? change inner path).map fun inner => set entries step (.table origin inner)
    | some (.rows tables) =>
      (changeLast? (fun inner => within? change inner path) tables).map fun tables =>
        set entries step (.rows tables)
    | some _ => none

/-- Opens a table by its header: a new one, or one only implied so far. -/
def open? (entries : Entries) (path : List Text) (key : Text) : Option Entries :=
  within? (fun parent =>
    match get? parent key with
    | none => some (set parent key (.table .header []))
    | some (.table .implied inner) => some (set parent key (.table .header inner))
    | some _ => none) entries path

/-- Opens one more table of a repeated header. -/
def openRow? (entries : Entries) (path : List Text) (key : Text) : Option Entries :=
  within? (fun parent =>
    match get? parent key with
    | none => some (set parent key (.rows [[]]))
    | some (.rows tables) => some (set parent key (.rows (tables ++ [[]])))
    | some _ => none) entries path

/-- Carries out a statement; `current` is the path of the header in force. -/
def perform? (state : Entries × List Text) : Statement → Option (Entries × List Text)
  | .assignment path key value =>
    (within? (fun table => assign? table path key value) state.1 state.2).map fun entries =>
      (entries, state.2)
  | .header path key => (open? state.1 path key).map fun entries => (entries, path ++ [key])
  | .rowHeader path key => (openRow? state.1 path key).map fun entries => (entries, path ++ [key])

/-- The table that a document denotes, unless some key is defined twice. -/
def build? (statements : List Statement) : Option Entries :=
  (statements.foldlM perform? ([], [])).map (·.1)

/-- **No key is assigned twice.** -/
theorem assign?_of_mem {entries : Entries} {key : Text} (h : (get? entries key).isSome = true)
    (value : Value) : assign? entries [] key value = none := by
  simp [assign?, insert?, h]

end Keypad.Toml
