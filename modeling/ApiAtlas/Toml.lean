/-!
TOML documents as trees. A table remembers how it came about, since that decides whether a header or
a dotted key may still add to it.
-/
namespace ApiAtlas.Toml

abbrev Key := List Char

/-- How a table came about: by its own header, on the way to another, or by a dotted key. -/
inductive Origin where
  | header
  | implied
  | dotted
  deriving DecidableEq, Repr

/-- What a key stands for. Numbers and dates are checked when they are read but not kept. -/
inductive Node where
  | string (s : List Char)
  | bool (b : Bool)
  | scalar
  | array (items : List Node)
  | inline (fields : List (Key × Node))
  | table (origin : Origin) (fields : List (Key × Node))
  /-- Tables of one repeated header, the last one first. -/
  | tables (items : List (List (Key × Node)))
  deriving Repr, Inhabited

abbrev Fields := List (Key × Node)

def Fields.set (fields : Fields) (key : Key) (node : Node) : Fields :=
  match fields with
  | [] => [(key, node)]
  | (k, n) :: rest => if k = key then (key, node) :: rest else (k, n) :: Fields.set rest key node

/-- Changes the fields at the end of a path. Tables that are missing are made, of the given origin;
a dotted key does not lead into a table that has a header, and nothing leads into a value. -/
def Fields.change (origin : Origin) (f : Origin → Fields → Option Fields) :
    (path : List Key) → Origin → Fields → Option Fields
  | [], here, fields => f here fields
  | key :: path, _, fields =>
    match fields.lookup key with
    | none => do
      let child ← Fields.change origin f path origin []
      return fields.set key (.table origin child)
    | some (.table o child) =>
      if origin = .dotted ∧ o = .header then none
      else do
        let child ← Fields.change origin f path o child
        return fields.set key (.table o child)
    | some (.tables (last :: before)) => do
      let last ← Fields.change origin f path .header last
      return fields.set key (.tables (last :: before))
    | some _ => none

/-- Adds a value under a new key; a dotted key adds only to a table that dotted keys made. -/
def Fields.add (fields : Fields) (path : List Key) (key : Key) (value : Node) : Option Fields :=
  Fields.change .dotted
    (fun origin fields =>
      if (!path.isEmpty && origin ≠ .dotted) || (fields.lookup key).isSome then none
      else some (fields ++ [(key, value)]))
    path .header fields

def Fields.openTable (fields : Fields) (path : List Key) (key : Key) : Option Fields :=
  Fields.change .implied
    (fun _ fields =>
      match fields.lookup key with
      | none => some (fields ++ [(key, .table .header [])])
      | some (.table .implied child) => some (fields.set key (.table .header child))
      | some _ => none)
    path .header fields

def Fields.openNext (fields : Fields) (path : List Key) (key : Key) : Option Fields :=
  Fields.change .implied
    (fun _ fields =>
      match fields.lookup key with
      | none => some (fields ++ [(key, .tables [[]])])
      | some (.tables items) => some (fields.set key (.tables ([] :: items)))
      | some _ => none)
    path .header fields

def Fields.addIn (fields : Fields) (opened path : List Key) (key : Key) (value : Node) :
    Option Fields :=
  Fields.change .implied (fun _ fields => fields.add path key value) opened .header fields

end ApiAtlas.Toml
