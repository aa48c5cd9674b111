import Ferry.Json.Basic
import Ferry.Properties

/-!
# Readers of records

A reader turns a `Draft` into a value of a type or says which of two faults it
met first. The shape of a record lists its fields in order; one reader serves
every shape. A record may be written as an object, with fields in any order
and unknown ones between them, or as an array of its fields in their order.
-/

namespace Ferry.Json

abbrev Reader (α : Type) := Draft → Except Fault α

/-- The fault of a value that is not of the expected kind. -/
def Draft.unexpected : Draft → Fault
  | .broken => .malformed
  | .unpaired => .malformed
  | .num .overflow => .malformed
  | _ => .mismatch

/-! ## Plain values -/

def readString : Reader String
  | .str s => .ok s
  | d => .error d.unexpected

def readBool : Reader Bool
  | .bool b => .ok b
  | d => .error d.unexpected

/-- An unsigned integer below `bound`. -/
def readBelow (bound : Nat) : Reader Nat
  | .num (.natural n) => if n < bound then .ok n else .error .mismatch
  | d => .error d.unexpected

/-- A string of a certain form. -/
def readParsed {α : Type} (parse? : String → Option α) : Reader α
  | .str s => match parse? s with
    | some a => .ok a
    | none => .error .mismatch
  | d => .error d.unexpected

/-- A value or `null`. -/
def readOption {α : Type} (read : Reader α) : Reader (Option α)
  | .null => .ok none
  | d => (read d).map some

def readEach {α : Type} (read : Reader α) : List Draft → Except Fault (List α)
  | [] => .ok []
  | d :: rest => do
    let a ← read d
    let more ← readEach read rest
    .ok (a :: more)

def readList {α : Type} (read : Reader α) : Reader (List α)
  | .arr items closed => do
    let as ← readEach read items
    if closed then .ok as else .error .malformed
  | d => .error d.unexpected

/-- The entries of a map in the order of the text. -/
def readEntries {α : Type} (read : Reader α) :
    List (Option String × Draft) → Except Fault (List (String × α))
  | [] => .ok []
  | (none, _) :: _ => .error .malformed
  | (some name, d) :: rest => do
    let a ← read d
    let more ← readEntries read rest
    .ok ((name, a) :: more)

/-- A map given as an object; names may repeat. -/
def readMap {α : Type} (read : Reader α) : Reader (List (String × α))
  | .obj fields closed => do
    let entries ← readEntries read fields
    if closed then .ok entries else .error .malformed
  | d => .error d.unexpected

def readProperties : Reader Properties := fun d =>
  (readMap readString d).map Properties.ofList

/-- One of a set of names: a string, or an object with the name as its only
field and `null` as the value. Nothing else is even looked at. -/
def readName {α : Type} (parse? : String → Option α) : Reader α
  | .str s => match parse? s with
    | some a => .ok a
    | none => .error .mismatch
  | .obj ((some s, d) :: rest) closed => match parse? s with
    | none => .error .mismatch
    | some a => match d with
      | .null => if rest.isEmpty && closed then .ok a else .error .malformed
      | d => .error d.unexpected
  | _ => .error .malformed

/-! ## Records -/

/-- What stands for a field that is left out of an object or of an array. -/
structure Absent (α : Type) where
  inObject : Option α
  inArray : Option α

namespace Absent

variable {α : Type}

def required : Absent α := ⟨none, none⟩

def defaulted (a : α) : Absent α := ⟨some a, some a⟩

/-- An object may leave out an optional field, an array may not. -/
def optional : Absent (Option α) := ⟨some none, none⟩

end Absent

/-- The fields of a record in order, each with its reader and what stands for
it when it is left out. -/
inductive Shape : Type → Type 1 where
  | done {α : Type} (a : α) : Shape α
  | field {α : Type} (β : Type) (name : String) (read : Reader β) (absent : Absent β)
      (rest : Shape (β → α)) : Shape α

namespace Shape

/-- The fields met so far. -/
def Slots : {α : Type} → Shape α → Type
  | _, .done _ => Unit
  | _, .field β _ _ _ rest => Option β × rest.Slots

def noSlots : {α : Type} → (s : Shape α) → s.Slots
  | _, .done _ => ()
  | _, .field _ _ _ _ rest => (none, rest.noSlots)

/-- Reads the value of a known field into its slot; a second value for a slot is
a mismatch. The answer is `none` where no field has the name. -/
def put : {α : Type} → (s : Shape α) → s.Slots → String → Draft → Option (Except Fault s.Slots)
  | _, .done _, _, _, _ => none
  | _, .field _ name read _ rest, slots, key, d =>
    if key = name then
      some (match slots.1 with
        | some _ => .error .mismatch
        | none => (read d).map fun b => (some b, slots.2))
    else (rest.put slots.2 key d).map fun r => r.map fun more => (slots.1, more)

/-- The record of the fields met, once the object has ended. -/
def finish : {α : Type} → (s : Shape α) → s.Slots → Except Fault α
  | _, .done a, _ => .ok a
  | _, .field _ _ _ absent rest, slots =>
    match slots.1 <|> absent.inObject with
    | none => .error .mismatch
    | some b => (rest.finish slots.2).map fun build => build b

/-- Reads the fields of an object from the left. -/
def readObject {α : Type} (s : Shape α) :
    List (Option String × Draft) → s.Slots → Except Fault s.Slots
  | [], slots => .ok slots
  | (none, _) :: _, _ => .error .malformed
  | (some name, d) :: rest, slots =>
    match s.put slots name d with
    | some (.ok slots) => s.readObject rest slots
    | some (.error e) => .error e
    | none => if d.whole then s.readObject rest slots else .error .malformed

/-- Reads the fields of an array in order; the answer holds the items left over. -/
def readArray : {α : Type} → (s : Shape α) → List Draft → Bool → Except Fault (α × List Draft)
  | _, .done a, items, _ => .ok (a, items)
  | _, .field _ _ read _ rest, d :: items, closed => do
    let b ← read d
    let (build, items) ← rest.readArray items closed
    .ok (build b, items)
  | _, .field _ _ _ absent rest, [], closed =>
    if closed then
      match absent.inArray with
      | none => .error .mismatch
      | some b => (rest.readArray [] closed).map fun r => (r.1 b, r.2)
    else .error .malformed

/-- The reader of a record. -/
def read {α : Type} (s : Shape α) : Reader α
  | .obj fields closed => do
    let slots ← s.readObject fields s.noSlots
    if closed then s.finish slots else .error .malformed
  | .arr items closed => do
    let (a, rest) ← s.readArray items closed
    if rest.isEmpty && closed then .ok a else .error .malformed
  | d => .error d.unexpected

/-- The reader of a record where an array may hold more items than the record has
fields. -/
def readLoose {α : Type} (s : Shape α) : Reader α
  | .arr items closed => (s.readArray items closed).map (·.1)
  | d => s.read d

end Shape

/-! ## Documents -/

/-- Reads a whole text: what follows the value must be blank. -/
def readWhole {α : Type} (read : Reader α) (doc : Draft × Bool) : Except Fault α := do
  let a ← read doc.1
  if doc.2 then .ok a else .error .malformed

end Ferry.Json
