import Oati.Library.JsonText
import Oati.TypeScript.Engine

/-!
# Canonical JSON

`canonical.ts`: `canonicalValue` copies a value with its members in the order of their names'
UTF-16 code units, and `canonicalJson` writes that copy without whitespace.

The copy is filled by assignment, and assigning `__proto__` sets the prototype of the copy
instead of a member: a member of that name is checked like the others, and then lost.
-/

namespace Oati.TypeScript

/-- `invalid`. -/
def invalid (message : String) : JsError := .oatiError .invalidCanonicalValue message

/-- The members that assigning to `target` in the order of the sorted names leaves. -/
def canonicalMembers (members : Record) : Record :=
  (members.filter fun m => m.1 != "__proto__").insertionSort fun a b => utf16 a.1 ≤ utf16 b.1

/-- `if (depth > 256) throw …`. -/
def withinDepth (depth : ℕ) (result : Except JsError Value) : Except JsError Value :=
  if depth > 256 then .error (invalid "JSON nesting exceeds the canonicalization limit")
  else result

mutual

/-- `canonicalValue`. A document is neither cyclic nor does it hold `undefined`, so exceeding
the depth is the only way to fail, and the order of the members does not matter for it. -/
def canonicalValue (depth : ℕ) : Value → Except JsError Value
  | .null => withinDepth depth (.ok .null)
  | .bool b => withinDepth depth (.ok (.bool b))
  | .num q => withinDepth depth (.ok (.num q))
  | .str s => withinDepth depth (.ok (.str s))
  | .arr items => withinDepth depth (Json.arr <$> canonicalItems (depth + 1) items)
  | .obj members => withinDepth depth
      ((fun ms => Json.obj (canonicalMembers ms)) <$> canonicalEntries (depth + 1) members)
termination_by structural v => v

/-- `value.map((item) => canonicalValue(item, ancestors, depth + 1))`. -/
def canonicalItems (depth : ℕ) : List Value → Except JsError (List Value)
  | [] => .ok []
  | v :: rest => do return (← canonicalValue depth v) :: (← canonicalItems depth rest)
termination_by structural items => items

/-- The members with their values copied. -/
def canonicalEntries (depth : ℕ) : List (String × Value) → Except JsError Record
  | [] => .ok []
  | (key, v) :: rest => do
    return (key, ← canonicalValue depth v) :: (← canonicalEntries depth rest)
termination_by structural members => members

end

/-- `canonicalJson`. -/
def canonicalJson (engine : Engine) (value : Value) : Except JsError String :=
  (fun v => String.ofList (JsonText.render (fun q => (numberText engine q).toList) v)) <$>
    canonicalValue 0 value

/-- `JSON.stringify` of a value with a JSON representation. -/
def stringify (engine : Engine) (value : Value) : String :=
  String.ofList (JsonText.render (fun q => (numberText engine q).toList) value)

/-- `JSON.parse`. -/
def jsonParse (engine : Engine) (cs : List Char) : Except JsError Value :=
  match JsonText.parse cs with
  | some value => .ok (value.map (literalNumber engine))
  | none => .error (.error (engine.syntaxMessage (String.ofList cs)))

example : (canonicalValue 0 (.obj [("b", .num 1), ("__proto__", .null), ("a", .arr [.null])])
    = .ok (.obj [("a", .arr [.null]), ("b", .num 1)])) := by rfl

end Oati.TypeScript
