/-! JSON values. An object is the list of its members in the order in which they
are written; values that are kept for later have their members in strictly
increasing order of the names, which is the order that insertion maintains. -/
namespace SymbolAtlas.Json

/-- A number keeps whether it was an integer: `1` and `1.0` are different. -/
inductive Number where
  | integer (n : Int)
  | float (x : Float)
  deriving BEq, DecidableEq, Repr

/-- Equality of values compares floats as numbers, so the two zeros are equal. -/
inductive Value where
  | null
  | bool (b : Bool)
  | number (n : Number)
  | string (s : String)
  | array (items : List Value)
  | object (members : List (String × Value))
  deriving BEq, Repr, Inhabited

/-- Puts a member in its place by name. A member of the same name is replaced, so
of equal names the last one read is kept. -/
def insertMember (name : String) (value : Value) :
    List (String × Value) → List (String × Value)
  | [] => [(name, value)]
  | (other, held) :: rest =>
    match compare name other with
    | .lt => (name, value) :: (other, held) :: rest
    | .eq => (name, value) :: rest
    | .gt => (other, held) :: insertMember name value rest

end SymbolAtlas.Json
