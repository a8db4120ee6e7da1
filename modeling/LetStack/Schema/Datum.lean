import LetStack.Table

/-! Plain nested data, and the reading of it that reports every problem with its place. -/

namespace LetStack

inductive Datum where
  | null
  | bool (value : Bool)
  | int (value : Int)
  | float (value : Float)
  | text (value : String)
  | bytes (content : List UInt8)
  | list (items : List Datum)
  | object (fields : List (String × Datum))
  deriving Inhabited

inductive Step where
  | field (name : String)
  | item (position : Nat)
  deriving DecidableEq

inductive Problem where
  | notObject
  | notTagged
  | tagMissing
  | tagUnknown
  | missing
  | wrongTag
  | notInt
  | intUnreadable
  | intTooLong
  | fractional
  | notFinite
  | tooSmall
  | tooLarge
  | notFloat
  | floatUnreadable
  | notBool
  | boolUnreadable
  | notText
  | textUndecodable
  | notBytes
  | notList
  | notTable
  | unknownOperator
  deriving DecidableEq

structure Issue where
  path : List Step
  problem : Problem
  deriving DecidableEq

def Checked (α : Type) := Except (List Issue) α

namespace Checked

def ok (value : α) : Checked α := Except.ok value

def refuse (problem : Problem) : Checked α := Except.error [⟨[], problem⟩]

def under (step : Step) : Checked α → Checked α
  | .ok value => .ok value
  | .error issues => .error (issues.map fun issue => { issue with path := step :: issue.path })

def also : Checked (α → β) → Checked α → Checked β
  | .ok make, .ok value => .ok (make value)
  | .ok _, .error issues => .error issues
  | .error issues, .ok _ => .error issues
  | .error issues, .error more => .error (issues ++ more)

def and (first : Checked α) (second : Checked β) : Checked β :=
  also (also (ok fun _ value => value) first) second

def next (checked : Checked α) (use : α → Checked β) : Checked β :=
  match checked with
  | .ok value => use value
  | .error issues => .error issues

@[simp] theorem also_ok (make : α → β) (value : α) : also (ok make) (ok value) = ok (make value) :=
  rfl

@[simp] theorem under_ok (step : Step) (value : α) : under step (ok value) = ok value := rfl

@[simp] theorem next_ok (value : α) (use : α → Checked β) : next (ok value) use = use value := rfl

end Checked

namespace Datum

theorem sizeOf_lookup_lt {name : String} {fields : List (String × Datum)} {datum : Datum}
    (found : Table.lookup name fields = some datum) : sizeOf datum < sizeOf fields := by
  induction fields with
  | nil => simp [Table.lookup] at found
  | cons entry rest ih =>
      obtain ⟨other, value⟩ := entry
      simp only [Table.lookup] at found
      simp only [List.cons.sizeOf_spec, Prod.mk.sizeOf_spec]
      split at found
      · cases found
        omega
      · have smaller := ih found
        omega

def optional (fields : List (String × Datum)) (name : String) (fallback : α)
    (read : (datum : Datum) → sizeOf datum < sizeOf fields → Checked α) : Checked α :=
  match found : Table.lookup name fields with
  | none => .ok fallback
  | some datum => (read datum (sizeOf_lookup_lt found)).under (.field name)

def required (fields : List (String × Datum)) (name : String)
    (read : (datum : Datum) → sizeOf datum < sizeOf fields → Checked α) : Checked α :=
  match found : Table.lookup name fields with
  | none => (Checked.refuse .missing).under (.field name)
  | some datum => (read datum (sizeOf_lookup_lt found)).under (.field name)

def readItems : (items : List Datum) → Nat →
    ((datum : Datum) → sizeOf datum < sizeOf items → Checked α) → Checked (List α)
  | [], _, _ => .ok []
  | first :: rest, position, read =>
    ((Checked.ok List.cons).also
      ((read first (by simp only [List.cons.sizeOf_spec]; omega)).under (.item position))).also
      (readItems rest (position + 1) fun datum smaller =>
        read datum (by simp only [List.cons.sizeOf_spec]; omega))

def readList (datum : Datum)
    (read : (item : Datum) → sizeOf item < sizeOf datum → Checked α) : Checked (List α) :=
  match datum with
  | list items => readItems items 0 fun item smaller => read item (by simp; omega)
  | _ => .refuse .notList

def readEntries (read : Datum → Checked α) :
    List (String × Datum) → Checked (List (String × α))
  | [] => .ok []
  | (name, datum) :: rest =>
    ((Checked.ok fun value entries => (name, value) :: entries).also
      ((read datum).under (.field name))).also (readEntries read rest)

def readTable (read : Datum → Checked α) : Datum → Checked (Table α)
  | object fields => (readEntries read fields).next fun entries => .ok (.ofEntries entries)
  | _ => .refuse .notTable

def readTag (ofName? : String → Option κ) (fields : List (String × Datum)) : Checked κ :=
  match Table.lookup "kind" fields with
  | none => .refuse .tagMissing
  | some (text name) =>
    match ofName? name with
    | some kind => .ok kind
    | none => .refuse .tagUnknown
  | some _ => .refuse .tagUnknown

/-- Where one kind of object is asked for, the field `kind` may be left out. -/
def checkTag (name : String) (fields : List (String × Datum)) : Checked Unit :=
  match Table.lookup "kind" fields with
  | none => .ok ()
  | some (text other) =>
    if other = name then .ok () else (Checked.refuse .wrongTag).under (.field "kind")
  | some _ => (Checked.refuse .wrongTag).under (.field "kind")

def readNamed (name : String) (read : List (String × Datum) → Checked α) : Datum → Checked α
  | object fields => (checkTag name fields).and (read fields)
  | _ => .refuse .notObject

end Datum

end LetStack
