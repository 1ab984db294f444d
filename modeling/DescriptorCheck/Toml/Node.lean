import DescriptorCheck.Number.Binary64

set_option autoImplicit false

/-! A table remembers what made it, since that decides what may still be added to it: headers
may enter tables made by headers or by dotted keys, dotted keys only tables made by dotted keys,
and tables written in line are complete. -/
namespace DescriptorCheck.Toml

inductive Origin where
  | header
  /-- A header that names a table in it. -/
  | implied
  | dotted
  | inline
deriving DecidableEq

inductive Node where
  | string (s : String)
  | integer (i : Int)
  | float (x : Number.Binary64)
  | boolean (b : Bool)
  | moment
  | array (items : List Node)
  | table (origin : Origin) (entries : List (String × Node))
  /-- The tables of a repeated header. -/
  | tables (items : List (List (String × Node)))

abbrev Entries := List (String × Node)

namespace Entries

def replace (entries : Entries) (key : String) (n : Node) : Entries :=
  entries.map fun entry => if entry.1 = key then (key, n) else entry

/-- Changes the table that a path leads to, which is made if it is missing. Of the
tables of a repeated header the last one is entered. -/
def change (byDots : Bool) (act : Origin → Entries → Option Entries) :
    List String → Origin → Entries → Option Entries
  | [], origin, entries => act origin entries
  | key :: path, _, entries =>
    match entries.lookup key with
    | none => do
      let origin : Origin := if byDots then .dotted else .implied
      let inner ← change byDots act path origin []
      return entries ++ [(key, .table origin inner)]
    | some (.table origin inner) =>
      if origin = .inline || (byDots && origin = .header) then none
      else do
        let inner ← change byDots act path origin inner
        return entries.replace key (.table origin inner)
    | some (.tables items) => do
      let inner ← change byDots act path .header (← items.getLast?)
      return entries.replace key (.tables (items.dropLast ++ [inner]))
    | some _ => none

/-- Adds an entry under a key of one part or more. A key of one part adds to a table
that dots did not make, a longer one to a table that they did. -/
def insert (entries : Entries) (origin : Origin) (path : List String) (key : String) (n : Node) :
    Option Entries :=
  change true
    (fun origin entries =>
      if (origin == .dotted) == path.isEmpty then none
      else if (entries.lookup key).isSome then none
      else some (entries ++ [(key, n)]))
    path origin entries

/-- Opens the table of a header. A table that other headers implied becomes its own. -/
def openTable (entries : Entries) (path : List String) (key : String) : Option Entries :=
  change false
    (fun _ entries =>
      match entries.lookup key with
      | none => some (entries ++ [(key, .table .header [])])
      | some (.table .implied inner) => some (entries.replace key (.table .header inner))
      | some _ => none)
    path .header entries

def openNext (entries : Entries) (path : List String) (key : String) : Option Entries :=
  change false
    (fun _ entries =>
      match entries.lookup key with
      | none => some (entries ++ [(key, .tables [[]])])
      | some (.tables items) => some (entries.replace key (.tables (items ++ [[]])))
      | some _ => none)
    path .header entries

end Entries

end DescriptorCheck.Toml
