/-
  Descent.Json

  Data in the shape of JSON: what is exchanged with programs that read and write elements as data.
  The members of an object have an order here, which no reader in this library depends on.
-/

namespace Descent

/-- A JSON value. -/
inductive Json where
  | null
  | bool (b : Bool)
  /-- The number `digits` with this many decimal places. -/
  | number (digits : Int) (places : Nat)
  | string (s : String)
  | array (items : List Json)
  | object (members : List (String × Json))
deriving Inhabited

end Descent
