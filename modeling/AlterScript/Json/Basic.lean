/-
  JSON values.

  Objects keep the order of their entries, but two objects are the same whatever their order.
  A number is an integer of 64 bits or a floating-point number; the two kinds are never the same.
-/
import AlterScript.Entries
import AlterScript.Number.Shortest

namespace AlterScript

namespace Json

/-- A number: an integer, or a finite floating-point number. -/
inductive Number
  | int (value : Int)
  | float (value : Binary64)
deriving DecidableEq, Repr

namespace Number

/-- Equal as numbers of one kind. -/
def same : Number → Number → Bool
  | int a, int b => a == b
  | float a, float b => a.same b
  | _, _ => false

@[simp] theorem same_refl (n : Number) : n.same n = true := by cases n <;> simp [same]

/-- Integers plainly, floating-point numbers with the fewest digits. -/
def text : Number → String
  | int i => toString i
  | float x => x.text

end Number

end Json

/-- A JSON value. -/
inductive Json
  | null
  | bool (value : Bool)
  | num (value : Json.Number)
  | str (value : String)
  | arr (items : List Json)
  | obj (entries : List (String × Json))

namespace Json

instance : Inhabited Json := ⟨null⟩

/-! ## Equality -/

mutual

/-- Equality of values: the order of the entries of an object does not count. -/
def same : Json → Json → Bool
  | null, null => true
  | bool a, bool b => a == b
  | num a, num b => a.same b
  | str a, str b => a == b
  | arr a, arr b => sameItems a b
  | obj a, obj b => a.length == b.length && sameEntries a b
  | _, _ => false
termination_by structural x => x

def sameItems : List Json → List Json → Bool
  | [], [] => true
  | x :: xs, y :: ys => same x y && sameItems xs ys
  | _, _ => false
termination_by structural x => x

/-- Whether every entry of the first list has the same value in the second. -/
def sameEntries : List (String × Json) → List (String × Json) → Bool
  | [], _ => true
  | (k, v) :: r, b =>
    (match Entries.find? k b with
      | some w => same v w
      | none => false) && sameEntries r b
termination_by structural x => x

end

instance : BEq Json := ⟨same⟩

/-! ## Parts -/

def isNull : Json → Bool
  | null => true
  | _ => false

/-- The entries of an object. -/
def entries? : Json → Option (Entries Json)
  | obj entries => some entries
  | _ => none

/-- The value under a name, when the value is an object. -/
def get? (key : String) (j : Json) : Option Json := j.entries?.bind (Entries.find? key)

/-- The kind of a value in words. -/
def kind : Json → String
  | null => "null"
  | bool _ => "a boolean"
  | num _ => "a number"
  | str _ => "a string"
  | arr _ => "an array"
  | obj _ => "an object"

end Json

end AlterScript
