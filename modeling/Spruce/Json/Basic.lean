import Spruce.Json.Number

/-!
# JSON values

The members of an object are kept in order, as a list of keys and values. Two values are the same
when they differ at most in the order of the members of objects and in the sign of zeros.
-/

namespace Spruce.Json

/-- A JSON value. -/
inductive Value
  | null
  | bool (b : Bool)
  | number (n : Number)
  | string (t : Text)
  | array (items : List Value)
  | object (members : List (Text × Value))
  deriving Repr

/-- The members of an object. -/
abbrev Members := List (Text × Value)

namespace Members

/-- The value of a key. -/
def get? (key : Text) (members : Members) : Option Value := members.lookup key

/-- The members with a value for a key: in place of the value the key has, else at the end. -/
def put (key : Text) (v : Value) : Members → Members
  | [] => [(key, v)]
  | (k, old) :: rest => if k = key then (k, v) :: rest else (k, old) :: put key v rest

/-- The keys in order. -/
def keys (members : Members) : List Text := members.map Prod.fst

end Members

namespace Value

/-- Whether a value is an object. -/
def isObject : Value → Bool
  | .object _ => true
  | _ => false

/-- The members of an object. -/
def members? : Value → Option Members
  | .object members => some members
  | _ => none

/-- An integer as a value. -/
def ofNat (n : Nat) : Value := .number (.whole n)

mutual

/-- Whether two values are the same. -/
def same : Value → Value → Bool
  | .null, .null => true
  | .bool a, .bool b => a = b
  | .number a, .number b => a.same b
  | .string a, .string b => a = b
  | .array as, .array bs => sameItems as bs
  | .object as, .object bs => as.length = bs.length && sameMembers as bs
  | _, _ => false

/-- Whether two lists of values are the same, item by item. -/
def sameItems : List Value → List Value → Bool
  | [], [] => true
  | a :: as, b :: bs => same a b && sameItems as bs
  | _, _ => false

/-- Whether each member has the same value in `others`. -/
def sameMembers : List (Text × Value) → Members → Bool
  | [], _ => true
  | (key, a) :: as, others =>
    match others.get? key with
    | some b => same a b && sameMembers as others
    | none => false

end

mutual

/-- The number of values in a value that are not objects. -/
def leaves : Value → Nat
  | .object members => memberLeaves members
  | _ => 1

/-- The number of values among members that are not objects. -/
def memberLeaves : List (Text × Value) → Nat
  | [] => 0
  | (_, v) :: rest => leaves v + memberLeaves rest

end

end Value

end Spruce.Json
