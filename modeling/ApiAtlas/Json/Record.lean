import ApiAtlas.Json.Codec

/-!
Records: a codec from named fields. An object is read by name, unknown names being passed over, and
an array by position.
-/
namespace ApiAtlas.Json

/-- What a field is when an object does not name it, and when an array ends before it. -/
structure Presence (α : Type) where
  absent : Option α
  short : Option α

namespace Presence

variable {α : Type}

def required : Presence α := ⟨none, none⟩

def default (a : α) : Presence α := ⟨some a, some a⟩

/-- An object may leave the field out, an array may not. -/
def optional : Presence (Option α) := ⟨some none, none⟩

end Presence

inductive Fields : List Type → Type 1 where
  | nil : Fields []
  | cons {α : Type} {αs : List Type} (name : String) (presence : Presence α) (codec : Codec α)
      (rest : Fields αs) : Fields (α :: αs)

def Values : List Type → Type
  | [] => Unit
  | α :: αs => α × Values αs

def Slots : List Type → Type
  | [] => Unit
  | α :: αs => Option α × Slots αs

def Slots.empty : (αs : List Type) → Slots αs
  | [] => ()
  | _ :: αs => (none, Slots.empty αs)

/-- Why the inside of a record could not be used: a fault in the text, or a reason found at `rest`
that is reported behind the closing bracket. -/
inductive Stop where
  | fault (f : Fault)
  | reason (reason : Reason) (rest : List Char)

def Stop.lift {α : Type} : Except Fault α → Except Stop α
  | .ok a => .ok a
  | .error f => .error (.fault f)

namespace Fields

def names : {αs : List Type} → Fields αs → List String
  | _, .nil => []
  | _, .cons name _ _ rest => name :: rest.names

/-- Puts in the value of a known field with `put`, once only; `none` for an unknown field. -/
def assign {ε : Type} (key : String) (duplicate : ε) :
    {αs : List Type} → Fields αs → Slots αs →
      (put : {α : Type} → Codec α → Except ε (α × List Char)) →
      Option (Except ε (Slots αs × List Char))
  | _, .nil, _, _ => none
  | _, .cons name _ codec rest, (slot, slots), put =>
    if name = key then
      match slot with
      | some _ => some (.error duplicate)
      | none =>
        some <| match put codec with
          | .ok (a, after) => .ok ((some a, slots), after)
          | .error e => .error e
    else
      (rest.assign key duplicate slots put).map fun
        | .ok (slots, after) => .ok ((slot, slots), after)
        | .error e => .error e

def finish : {αs : List Type} → Fields αs → Slots αs → Except Reason (Values αs)
  | _, .nil, _ => .ok ()
  | _, .cons name presence _ rest, (slot, slots) =>
    match slot, presence.absent with
    | some a, _ => do return (a, ← rest.finish slots)
    | none, some a => do return (a, ← rest.finish slots)
    | none, none => .error (.missingField name)

def readMembers {αs : List Type} (fields : Fields αs) (depth : Nat) :
    (bound : List Char) → (first : Bool) → Slots αs → List Char →
      Except Stop (Slots αs × List Char)
  | [], _, _, cs => .error (.fault (faultAt .eofInObject cs))
  | _ :: bound, first, slots, cs => do
    match ← Stop.lift (nextKey first cs) with
    | none => return (slots, cs)
    | some rest =>
      let (key, rest) ← Stop.lift (readString rest)
      let key := String.ofList key
      let put {α : Type} (codec : Codec α) : Except Stop (α × List Char) := do
        let rest ← Stop.lift (readColon rest)
        Stop.lift (codec.read depth rest)
      match fields.assign key (.reason (.duplicateField key) rest) slots put with
      | some result =>
        let (slots, rest) ← result
        readMembers fields depth bound false slots rest
      | none =>
        let rest ← Stop.lift (readColon rest)
        let rest ← Stop.lift (skipValue rest)
        readMembers fields depth bound false slots rest

def readPositions (expected : String) (depth : Nat) :
    {αs : List Type} → Fields αs → (index : Nat) → List Char →
      Except Stop (Values αs × List Char)
  | _, .nil, _, cs => .ok ((), cs)
  | _, .cons _ presence codec rest, index, cs => do
    match ← Stop.lift (nextItem (index = 0) cs) with
    | none =>
      match presence.short with
      | none => throw (.reason (.invalidLength index expected) cs)
      | some a =>
        let (values, cs) ← rest.readPositions expected depth (index + 1) cs
        return ((a, values), cs)
    | some cs =>
      let (a, cs) ← Stop.lift (codec.read depth cs)
      let (values, cs) ← rest.readPositions expected depth (index + 1) cs
      return ((a, values), cs)

def ofFields {αs : List Type} (fields : Fields αs) :
    Slots αs → List (String × Json) → Except Reason (Slots αs)
  | slots, [] => .ok slots
  | slots, (key, value) :: rest =>
    let put {α : Type} (codec : Codec α) : Except Reason (α × List Char) := do
      return (← codec.ofJson value, [])
    match fields.assign key (.duplicateField key) slots put with
    | some (.ok (slots, _)) => ofFields fields slots rest
    | some (.error reason) => .error reason
    | none => ofFields fields slots rest

def ofItems (expected : String) :
    {αs : List Type} → Fields αs → (index : Nat) → List Json →
      Except Reason (Values αs × List Json)
  | _, .nil, _, items => .ok ((), items)
  | _, .cons _ presence _ rest, index, [] =>
    match presence.short with
    | none => .error (.invalidLength index expected)
    | some a => do
      let (values, items) ← rest.ofItems expected (index + 1) []
      return ((a, values), items)
  | _, .cons _ _ codec rest, index, item :: items => do
    let a ← codec.ofJson item
    let (values, items) ← rest.ofItems expected (index + 1) items
    return ((a, values), items)

def toFields : {αs : List Type} → Fields αs → Values αs → Except Reason (List (String × Json))
  | _, .nil, _ => .ok []
  | _, .cons name _ codec rest, (a, values) => do
    let v ← codec.toJson a
    return (name, v) :: (← rest.toFields values)

end Fields

structure Record (α : Type) where
  name : String
  types : List Type
  fields : Fields types
  make : Values types → α
  values : α → Values types

namespace Record

variable {α : Type}

def expected (r : Record α) : String := "struct " ++ r.name

def expectedLength (r : Record α) : String :=
  let n := r.types.length
  r.expected ++ " with " ++ Nat.repr n ++ (if n = 1 then " element" else " elements")

/-- Ends a record: a reason is placed where the closing bracket has been looked for. -/
def close {β : Type} (past : List Char → List Char)
    (ending : List Char → Except Fault (List Char)) :
    Except Stop (β × List Char) → Except Fault (β × List Char)
  | .ok (b, rest) => do return (b, ← ending rest)
  | .error (.fault f) => .error f
  | .error (.reason reason rest) => .error (faultAt reason (past rest))

def readObject (r : Record α) (depth : Nat) (cs : List Char) :
    Except Stop (Values r.types × List Char) := do
  let (slots, rest) ← r.fields.readMembers depth ('\x7b' :: cs) true (Slots.empty r.types) cs
  match r.fields.finish slots with
  | .ok values => return (values, rest)
  | .error reason => throw (.reason reason rest)

def codec (r : Record α) : Codec α where
  read depth cs :=
    match skipSpace cs with
    | [] => .error ⟨.eofInValue, 0⟩
    | '[' :: rest =>
      Codec.nested depth ('[' :: rest) fun depth => do
        let (values, rest) ←
          close pastList endList (r.fields.readPositions r.expectedLength depth 0 rest)
        return (r.make values, rest)
    | '\x7b' :: rest =>
      Codec.nested depth ('\x7b' :: rest) fun depth => do
        let (values, rest) ← close pastObject endObject (r.readObject depth rest)
        return (r.make values, rest)
    | other => .error (wrongType r.expected other)
  ofJson
    | .arr items => do
      let (values, extra) ← r.fields.ofItems r.expectedLength 0 items
      if extra.isEmpty then return r.make values
      else throw (.invalidLength items.length "fewer elements in array")
    | .obj fields => do
      let slots ← r.fields.ofFields (Slots.empty r.types) fields
      return r.make (← r.fields.finish slots)
    | v => .error (.invalidType v.found r.expected)
  toJson a := do return .obj (← r.fields.toFields (r.values a))

end Record

end ApiAtlas.Json
