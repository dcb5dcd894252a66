import Sequencer.Json.Error

/-! # Decoders

A decoder makes a value of some type from a tree, or tells the first fault that it meets in
the order of the text. It works in one of two modes: directly on the text, where the
tree may still break off, or on a tree that was found sound before. The modes differ in
what they skip, in arrays with too many items and in how they name a choice.
-/

namespace Sequencer.Json

inductive Mode where
  /-- Arrays and objects may still be nested `room` levels deep. -/
  | direct (room : Nat)
  | buffered
  deriving DecidableEq, Repr, Inhabited

namespace Mode

def enter : Mode → Except Error Mode
  | direct 0 => .error .malformed
  | direct (room + 1) => .ok (direct room)
  | buffered => .ok buffered

/-- The value may stand where nobody reads it. -/
def skips (mode : Mode) (tree : Tree) : Bool :=
  match mode with
  | direct _ => tree.isWhole
  | buffered => true

/-- The value may be kept to be read later. -/
def keeps (mode : Mode) (tree : Tree) : Bool :=
  match mode with
  | direct room => tree.isSound room
  | buffered => true

end Mode

abbrev Decoder (α : Type) := Mode → Tree → Except Error α

abbrev Members := List (List Piece × Tree)

def readText (pieces : List Piece) : Except Error String :=
  match Piece.text? pieces with
  | some s => .ok s
  | none => .error .malformed

/-- An array or object has to be closed. -/
def Ending.check (ending : Ending) : Except Error Unit :=
  if ending.isClosed then .ok () else .error .malformed

def elements (n : Nat) : String :=
  toString n ++ if n = 1 then " element" else " elements"

namespace Decoder

def natural (expected : String) (bound : Nat) : Decoder Nat := fun _ tree =>
  match tree with
  | .number literal =>
    match literal.number? with
    | some (.integer n) =>
      if 0 ≤ n ∧ n < bound then .ok n.toNat else .error (.invalidValue (.integer n) expected)
    | other => .error (.mismatch (other.map Found.ofNumber) expected)
  | tree => .error (.mismatch tree.found? expected)

def byte : Decoder UInt8 := fun mode tree =>
  (natural "u8" UInt8.size mode tree).map UInt8.ofNat

def word : Decoder UInt32 := fun mode tree =>
  (natural "u32" UInt32.size mode tree).map UInt32.ofNat

def string : Decoder String := fun _ tree =>
  match tree with
  | .string pieces => readText pieces
  | tree => .error (.mismatch tree.found? "a string")

def nullable {α : Type} (decoder : Decoder α) : Decoder (Option α) := fun mode tree =>
  match tree with
  | .null => .ok none
  | tree => (decoder mode tree).map some

def list {α : Type} (decoder : Decoder α) : Decoder (List α) := fun mode tree =>
  match tree with
  | .array items ending => do
    let inner ← mode.enter
    let values ← items.mapM (decoder inner)
    ending.check
    return values
  | tree => .error (.mismatch tree.found? "a sequence")

section Choice

variable {α : Type} (variants : List (String × α))

def named (name : String) : Except Error α :=
  match variants.lookup name with
  | some a => .ok a
  | none => .error (.unknownVariant name (variants.map Prod.fst))

/-- A variant by its name; in a tree that was read before also by its number. -/
def identifier : Decoder α := fun mode tree =>
  match tree, mode with
  | .string pieces, _ => do named variants (← readText pieces)
  | .number literal, .buffered =>
    match literal.number? with
    | some (.integer (.ofNat n)) =>
      match variants[n]? with
      | some (_, a) => .ok a
      | none =>
        .error (.invalidValue (.integer n)
          ("variant index 0 <= i < " ++ toString variants.length))
    | other => .error (.mismatch (other.map Found.ofNumber) "variant identifier")
  | tree, _ => .error (.mismatch tree.found? "variant identifier")

/-- A variant without contents, given by its name or as an object with that only key and
nothing for a value. -/
def choice : Decoder α := fun mode tree =>
  match tree, mode with
  | .string pieces, _ => do named variants (← readText pieces)
  | .object members ending, .direct _ => do
    let _ ← mode.enter
    match members with
    | [] => .error .malformed
    | (key, value) :: more =>
      let a ← named variants (← readText key)
      match value with
      | .null => if more.isEmpty && ending.isClosed then .ok a else .error .malformed
      | value => .error (.mismatch value.found? "unit")
  | .object [(key, value)] _, .buffered => do
    let a ← named variants (← readText key)
    match value with
    | .null => .ok a
    | .object [] _ => .ok a
    | value => .error (.mismatch value.found? "unit")
  | .object _ _, .buffered => .error (.invalidValue .map "map with a single key")
  | _, .direct _ => .error .malformed
  | tree, .buffered => .error (.mismatch tree.found? "string or map")

end Choice

/-- Reads the value of one key at once and keeps the other members for later. -/
def gather {β : Type} (key : String) (read : Tree → Except Error β) (mode : Mode) :
    Members → Option β → Except Error (Option β × Members)
  | [], found => .ok (found, [])
  | (pieces, value) :: members, found => do
    let name ← readText pieces
    if name = key then
      if found.isSome then .error (.duplicateField key)
      let b ← read value
      gather key read mode members (some b)
    else if mode.keeps value then
      let (found, others) ← gather key read mode members found
      return (found, (pieces, value) :: others)
    else .error .malformed

/-- A choice whose variants have contents: the value of the key `tag`, or the first item of
an array, names the variant, and the rest is read by the decoder of that variant. -/
def tagged {α : Type} (expected tag : String) (variants : List (String × Decoder α)) :
    Decoder α := fun mode tree =>
  match tree with
  | .object members ending => do
    let inner ← mode.enter
    let (variant, others) ← gather tag (identifier variants inner) inner members none
    ending.check
    match variant with
    | some decoder => decoder .buffered (.object others .closed)
    | none => .error (.missingField tag)
  | .array [] ending => do
    let _ ← mode.enter
    ending.check
    .error (.missingField tag)
  | .array (first :: items) ending => do
    let inner ← mode.enter
    let decoder ← identifier variants inner first
    if items.all inner.keeps then
      ending.check
      decoder .buffered (.array items .closed)
    else .error .malformed
  | tree => .error (.mismatch tree.found? expected)

end Decoder

/-- A field of records of type `ρ`: how it is read into a record. -/
structure RecordField (ρ : Type) where
  name : String
  load : Mode → Tree → ρ → Except Error ρ
  /-- It may be absent from an object. -/
  optional : Bool
  /-- It may be absent from an array. -/
  trailing : Bool

namespace RecordField

variable {ρ α : Type}

def required (name : String) (decoder : Decoder α) (set : α → ρ → ρ) : RecordField ρ :=
  ⟨name, fun mode tree r => (decoder mode tree).map fun a => set a r, false, false⟩

/-- A field that keeps its value when it is absent. -/
def defaulted (name : String) (decoder : Decoder α) (set : α → ρ → ρ) : RecordField ρ :=
  { required name decoder set with optional := true, trailing := true }

/-- A field that keeps its value when it is absent from an object. -/
def omissible (name : String) (decoder : Decoder α) (set : α → ρ → ρ) : RecordField ρ :=
  { required name decoder set with optional := true }

/-- Reads members into a record; `seen` are the names of the fields read so far. -/
def loadMembers (fields : List (RecordField ρ)) (mode : Mode) :
    List String → Members → ρ → Except Error (List String × ρ)
  | seen, [], r => .ok (seen, r)
  | seen, (key, value) :: members, r => do
    let name ← readText key
    match fields.find? (·.name == name) with
    | some field =>
      if seen.contains name then .error (.duplicateField name)
      let r ← field.load mode value r
      loadMembers fields mode (name :: seen) members r
    | none =>
      if mode.skips value then loadMembers fields mode seen members r else .error .malformed

/-- Reads items into the fields of a record in their order, and gives the items left over;
`index` is the number of the first of the fields. -/
def loadItems (expected : String) (mode : Mode) (ending : Ending) :
    (index : Nat) → List (RecordField ρ) → List Tree → ρ → Except Error (ρ × List Tree)
  | _, [], items, r => .ok (r, items)
  | index, field :: fields, item :: items, r => do
    let r ← field.load mode item r
    loadItems expected mode ending (index + 1) fields items r
  | index, field :: fields, [], r => do
    ending.check
    if field.trailing then loadItems expected mode ending (index + 1) fields [] r
    else .error (.invalidLength index expected)

end RecordField

/-- A record, given as an object or as an array of its fields in order. Reading starts from
`blank`, which holds the values of absent fields. -/
def Decoder.record {ρ : Type} (expected : String) (fields : List (RecordField ρ)) (blank : ρ) :
    Decoder ρ := fun mode tree =>
  match tree with
  | .object members ending => do
    let inner ← mode.enter
    let (seen, r) ← RecordField.loadMembers fields inner [] members blank
    ending.check
    match fields.find? fun field => !field.optional && !seen.contains field.name with
    | some field => .error (.missingField field.name)
    | none => .ok r
  | .array items ending => do
    let inner ← mode.enter
    let whole := expected ++ " with " ++ elements fields.length
    let (r, rest) ← RecordField.loadItems whole inner ending 0 fields items blank
    match rest, mode with
    | [], _ => do
      ending.check
      return r
    | _, .direct _ => .error .malformed
    | _, .buffered =>
      .error (.invalidLength items.length (elements fields.length ++ " in sequence"))
  | tree => .error (.mismatch tree.found? expected)

/-- Levels to which arrays and objects may be nested. -/
def greatestDepth : Nat := 127

def Decoder.run {α : Type} (decoder : Decoder α) (text : String) : Except Error α :=
  let document := Document.ofText text
  match decoder (.direct greatestDepth) document.root with
  | .ok a => if document.ended then .ok a else .error .malformed
  | .error e => .error e

end Sequencer.Json
