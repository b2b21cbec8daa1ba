/-!
The tree that a TOML text describes, and how headers and dotted keys add to it. A table remembers
how it came about, which decides what may still be added.
-/

namespace LedgerWire.Toml

/-- How a table came about: from a longer header that passes through it, from a dotted key, from a
header of its own, or as a value between braces. -/
inductive Origin
  | passed
  | dotted
  | declared
  | braced
  deriving DecidableEq, Repr

inductive Node
  | text (value : String)
  | integer (value : Int)
  | real (literal : String)
  | boolean (value : Bool)
  | moment (literal : String)
  | list (items : List Node)
  | table (origin : Origin) (entries : List (String × Node))
  | tables (items : List Node)

abbrev Entries := List (String × Node)

def find? (key : String) : Entries → Option Node
  | [] => none
  | (other, node) :: rest => if key = other then some node else find? key rest

def put (key : String) (node : Node) : Entries → Entries
  | [] => [(key, node)]
  | (other, held) :: rest =>
    if key = other then (other, node) :: rest else (other, held) :: put key node rest

def Origin.isOpen : Origin → Bool
  | .passed | .dotted => true
  | .declared | .braced => false

/-- Changes the table at the end of a path. Tables that are missing on the way are made; `origin`
tells what for. A header passes through every table but a braced one and through the last table of
a list of tables; a dotted key passes through tables that are open to it. -/
def update (origin : Origin) (change : Origin → Entries → Option Entries) :
    List String → Origin → Entries → Option Entries
  | [], own, entries => change own entries
  | key :: path, _, entries =>
    match find? key entries with
    | none => do
      let inner ← update origin change path origin []
      some (put key (.table origin inner) entries)
    | some (.table own inner) =>
      if own = .braced && origin = .passed || origin = .dotted && !own.isOpen then none
      else do
        let inner ← update origin change path own inner
        some (put key (.table own inner) entries)
    | some (.tables (.table own inner :: earlier)) => do
      let inner ← update origin change path own inner
      some (put key (.tables (.table own inner :: earlier)) entries)
    | some _ => none

/-- Adds a value under a key that is dotted if `path` is not empty. A dotted key ends in a table that
dotted keys made, and no key is given twice. -/
def addValue (path : List String) (key : String) (node : Node) (origin : Origin) (entries : Entries) :
    Option Entries :=
  update .dotted (fun own entries =>
    if decide (own = .dotted) == path.isEmpty || (find? key entries).isSome then none
    else some (put key node entries)) path origin entries

def declareTable (path : List String) (key : String) (entries : Entries) : Option Entries :=
  update .passed (fun _ entries =>
    match find? key entries with
    | none => some (put key (.table .declared []) entries)
    | some (.table .passed inner) => some (put key (.table .declared inner) entries)
    | some _ => none) path .declared entries

def appendTable (path : List String) (key : String) (entries : Entries) : Option Entries :=
  update .passed (fun _ entries =>
    match find? key entries with
    | none => some (put key (.tables [.table .declared []]) entries)
    | some (.tables items) => some (put key (.tables (.table .declared [] :: items)) entries)
    | some _ => none) path .declared entries

def addUnder (header path : List String) (key : String) (node : Node) (entries : Entries) :
    Option Entries :=
  update .passed (addValue path key node) header .declared entries

end LedgerWire.Toml
