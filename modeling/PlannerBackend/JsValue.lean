set_option autoImplicit false

namespace Js

-- A number is carried by the text String(x) prints, which determines it up to
-- the sign of zero; a host value is a library object with its own toString.
inductive Value where
  | undefined
  | null
  | bool (b : Bool)
  | num (text : String)
  | str (s : String)
  | arr (items : List Value)
  | obj (fields : List (String × Value))
  | host (text : String)

abbrev Thrown := String

def truthy : Value → Bool
  | .undefined => false
  | .null => false
  | .bool b => b
  | .num text => text != "0" && text != "NaN"
  | .str s => s != ""
  | .arr _ => true
  | .obj _ => true
  | .host _ => true

def Value.get (value : Value) (name : String) : Value :=
  match value with
  | .obj fields => (fields.lookup name).getD .undefined
  | _ => .undefined

def orElse (first second : Value) : Value := if truthy first then first else second

def isNullish : Value → Bool
  | .undefined => true
  | .null => true
  | _ => false

def isUndefined : Value → Bool
  | .undefined => true
  | _ => false

def cannotConvert : Thrown := "Cannot convert object to primitive value"

-- On a plain object an own toString is data and not callable, and the
-- inherited valueOf returns the object itself, so the conversion throws.
mutual
def toText : Value → Except Thrown String
  | .undefined => .ok "undefined"
  | .null => .ok "null"
  | .bool b => .ok (if b then "true" else "false")
  | .num text => .ok text
  | .str s => .ok s
  | .arr items => (joinText items).map (String.intercalate ",")
  | .obj fields => if (fields.lookup "toString").isSome then .error cannotConvert else .ok "[object Object]"
  | .host text => .ok text
def joinText : List Value → Except Thrown (List String)
  | [] => .ok []
  | item :: rest =>
      match if isNullish item then .ok "" else toText item, joinText rest with
      | .ok text, .ok texts => .ok (text :: texts)
      | .error thrown, _ => .error thrown
      | .ok _, .error thrown => .error thrown
end

def lengthIsZero : Value → Bool
  | .str s => s == ""
  | .arr items => items.isEmpty
  | .obj fields =>
      match fields.lookup "length" with
      | some (.num text) => text == "0"
      | _ => false
  | _ => false

def isString : Value → Bool
  | .str _ => true
  | _ => false

theorem is_string_iff (value : Value) : isString value = true ↔ ∃ s, value = .str s := by
  cases value <;> simp [isString]

example : toText (.arr [.num "1", .null, .arr [.str "a", .bool true]]) = .ok "1,,a,true" := rfl
example : toText (.obj [("toString", .str "x")]) = .error cannotConvert := rfl

end Js
