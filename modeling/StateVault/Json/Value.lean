/-
  StateVault.Json.Value
  ─────────────────────
  **JSON VALUES.**

  Numbers are whole numbers that fit a signed or an unsigned 64-bit word, or
  finite doubles.  The members of an object keep the order in which their
  keys came in; a key that comes in again takes the new value at its old
  place.

    • `Json.insertMember` — one more member,
    • `Json.depth`        — how deep objects and arrays are nested.
-/
import StateVault.Decimal.Double
import StateVault.Error

namespace StateVault

/-- A whole number that fits 64 bits, with a sign or without one. -/
structure Integer where
  val : Int
  inRange : -0x8000000000000000 ≤ val ∧ val < 0x10000000000000000
deriving DecidableEq

instance : Repr Integer where
  reprPrec n _ := repr n.val

/-- The whole number, if it is in range. -/
def Integer.ofInt? (n : Int) : Option Integer :=
  if h : -0x8000000000000000 ≤ n ∧ n < 0x10000000000000000 then some ⟨n, h⟩ else none

inductive Json where
  | null
  | bool (b : Bool)
  | integer (n : Integer)
  | float (x : Double)
  | string (s : String)
  | array (items : List Json)
  | object (members : List (String × Json))
deriving Repr

namespace Json

def kind : Json → JsonKind
  | null => .null
  | bool _ => .boolean
  | integer _ => .number
  | float _ => .number
  | string _ => .string
  | array _ => .array
  | object _ => .object

/-- The members with one more, or with a new value for its key. -/
def insertMember (key : String) (value : Json) :
    List (String × Json) → List (String × Json)
  | [] => [(key, value)]
  | (k, v) :: rest =>
      if k = key then (k, value) :: rest else (k, v) :: insertMember key value rest

/-- The value of a key. -/
def member? (key : String) (members : List (String × Json)) : Option Json :=
  (members.find? (·.1 == key)).map (·.2)

mutual

/-- The levels of objects and arrays in a value, itself included. -/
def depth : Json → Nat
  | array items => itemsDepth items + 1
  | object members => membersDepth members + 1
  | _ => 0

def itemsDepth : List Json → Nat
  | [] => 0
  | v :: rest => max (depth v) (itemsDepth rest)

def membersDepth : List (String × Json) → Nat
  | [] => 0
  | (_, v) :: rest => max (depth v) (membersDepth rest)

end

end Json

end StateVault
