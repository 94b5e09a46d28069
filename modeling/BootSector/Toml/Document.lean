import BootSector.Toml.Item

/-!
# TOML documents

The items of a document are put together to one table.  A header or a dotted key brings the tables
on its way into being.  Such a table is *implied*: it may still be given a header of its own, once.
What has been given a value is not given another one, except that a value that is an array may be
replaced.
-/

namespace BootSector.Toml

/-- **A value of a document.** -/
inductive Node where
  /-- A value without parts. -/
  | scalar (s : Scalar)
  /-- An array. -/
  | array (items : List Node)
  /-- A table. -/
  | table (entries : List (Bytes × Node))
  /-- An array of tables; keys go to the last one. -/
  | tables (elements : List (List (Bytes × Node)))

/-- A table: keys with their values, in the order in which they were first given. -/
abbrev Table := List (Bytes × Node)

namespace Table

/-- The value of a key. -/
def find? (t : Table) (key : Bytes) : Option Node := (List.find? (·.1 == key) t).map (·.2)

/-- The table with another value for a key, which keeps its place. -/
def set : Table → Bytes → Node → Table
  | [], key, value => [(key, value)]
  | (k, v) :: rest, key, value =>
    if k = key then (k, value) :: rest else (k, v) :: set rest key value

/-- The table that keys at the given path go to. -/
def at? (t : Table) : Path → Option Table
  | [] => some t
  | key :: rest =>
    match t.find? key with
    | some (.table entries) => at? entries rest
    | some (.tables elements) => elements.getLast?.bind fun last => at? last rest
    | _ => none

/-- The table with a change to the table at a path. -/
def modifyAt? (change : Table → Table) (t : Table) : Path → Option Table
  | [] => some (change t)
  | key :: rest =>
    match t.find? key with
    | some (.table entries) =>
      (modifyAt? change entries rest).map fun entries => t.set key (.table entries)
    | some (.tables elements) => do
      let last ← elements.getLast?
      let last ← modifyAt? change last rest
      pure (t.set key (.tables (elements.dropLast ++ [last])))
    | _ => none

/-- The table with a value at a path; tables that are missing on the way are made. -/
def insertAt? (t : Table) : Path → Node → Option Table
  | [], _ => none
  | [key], value => some (t.set key value)
  | key :: rest, value =>
    match t.find? key with
    | none => (insertAt? [] rest value).map fun entries => t.set key (.table entries)
    | some (.table entries) =>
      (insertAt? entries rest value).map fun entries => t.set key (.table entries)
    | some _ => none

end Table

/-! ### Putting a document together -/

/-- **A document in the making.** -/
structure Draft where
  /-- What was put together so far. -/
  root : Table := []
  /-- The paths of implied tables. -/
  implied : List Path := []
  /-- The paths of values that are arrays. -/
  arrays : List Path := []

namespace Draft

/-- The draft with an implied table at a path. -/
def imply (d : Draft) (path : Path) : Draft := { d with implied := path :: d.implied }

/-- The draft in which the table at a path is not implied. -/
def settle (d : Draft) (path : Path) : Draft :=
  { d with implied := d.implied.filter (· != path) }

/-- The draft in which the value of a key is known to be an array or not.  The empty key stands for
the table that it is in. -/
def classify (d : Draft) (context : Path) (key : Bytes) (isArray : Bool) : Draft :=
  let path := if !key.isEmpty || context.isEmpty then context ++ [key] else context
  let others := d.arrays.filter (· != path)
  { d with arrays := if isArray then path :: others else others }

/-- The draft with a value for a key. -/
def put? (d : Draft) (context : Path) (key : Bytes) (value : Node) : Option Draft := do
  let path := context ++ [key]
  let table ← d.root.at? context
  if (table.find? key).isSome && !d.arrays.contains path then
    if d.implied.contains path then some (d.settle path) else none
  else
    let root ← d.root.modifyAt? (·.set key value) context
    pure { (if (table.find? key).isSome then d.settle path else d) with root := root }

/-- The draft in which all parts of a path behind `done` lead to tables. -/
def openParents? (d : Draft) (done : Path) : Path → Option Draft
  | [] => some d
  | key :: rest => do
    let table ← d.root.at? done
    let path := done ++ [key]
    match table.find? key with
    | some (.table _) | some (.tables _) => openParents? d path rest
    | some _ => none
    | none =>
      let root ← d.root.modifyAt? (·.set key (.table [])) done
      openParents? { d.imply path with root := root } path rest

/-- The draft with a table at a path. -/
def openTable? (d : Draft) (path : Path) : Option Draft := do
  let key ← path.getLast?
  let d ← d.openParents? [] path.dropLast
  d.put? path.dropLast key (.table [])

/-- The draft with one more element in the array of tables at a path. -/
def openElement? (d : Draft) (path : Path) : Option Draft := do
  let key ← path.getLast?
  let d ← d.openParents? [] path.dropLast
  let table ← d.root.at? path.dropLast
  let elements ←
    match table.find? key with
    | none => some []
    | some (.tables elements) => some elements
    | some _ => none
  let root ← d.root.modifyAt? (·.set key (.tables (elements ++ [[]]))) path.dropLast
  pure { d with root := root }

/-- The draft with the tables that a dotted key leads through, and the context of its last part. -/
def openKey? (d : Draft) (context : Path) : Path → Option (Draft × Path)
  | [] => some (d, context)
  | part :: rest => do
    let path := context ++ [part]
    let d ← (d.imply path).openTable? path
    openKey? d path rest

/-- Is the value an array? -/
def isArray : Term → Bool
  | .array _ => true
  | _ => false

mutual

/-- The draft after a value for a key, and the value; `inArray` tells whether the value stands in an
array.  The tables in the value are also put into the draft, where their keys are checked. -/
def value? (d : Draft) (context : Path) (key : Bytes) (inArray : Bool) :
    Term → Option (Draft × Node)
  | .scalar s => some (d, .scalar s)
  | .array items =>
    (values? (d.classify context key true) context key items).map fun (d, nodes) =>
      (d, .array nodes)
  | .table pairs => do
    let path := context ++ [key]
    let d := d.imply path
    let d ← if inArray then d.openElement? path else d.openTable? path
    let (d, entries) ← pairs? d path [] pairs
    pure (d, .table entries)

/-- The draft after the items of an array, and their values. -/
def values? (d : Draft) (context : Path) (key : Bytes) : List Term → Option (Draft × List Node)
  | [] => some (d, [])
  | item :: rest => do
    let (d, node) ← value? d context key true item
    let (d, nodes) ← values? d context key rest
    pure (d, node :: nodes)

/-- The draft after the pairs of a table at a path, and the entries of the table. -/
def pairs? (d : Draft) (path : Path) (entries : Table) :
    List (Path × Term) → Option (Draft × Table)
  | [] => some (d, entries)
  | (key, term) :: rest => do
    let last ← key.getLast?
    let (d, context) ← d.openKey? path key.dropLast
    let (d, node) ← value? d context last false term
    let d ← d.put? context last node
    pairs? (d.classify context last (isArray term)) path (← entries.insertAt? key node) rest

end

/-- The draft after some items, the first of which stands in the given context. -/
def items? (d : Draft) (context : Path) : List Item → Option Draft
  | [] => some d
  | .header key :: rest => do
    let d ← d.openTable? key
    items? (d.classify key [] false) key rest
  | .element key :: rest => do
    let d ← d.openElement? key
    items? (d.classify key [] false) key rest
  | .pair key term :: rest => do
    let last ← key.getLast?
    let (d, path) ← d.openKey? context key.dropLast
    let (d, node) ← value? d path last false term
    let d ← d.put? path last node
    items? (d.classify path last (isArray term)) context rest

end Draft

/-- **The table of a document.** -/
def read? (text : Bytes) : Option Table := do
  let items ← Item.read? text
  let d ← Draft.items? {} [] items
  pure d.root

end BootSector.Toml
