import Aesmsg.Lib.JsNumber

/-!
# Parsed JSON

The values that `JSON.parse` returns, as far as validators look at them.
-/

inductive Json where
  | null
  | boolean (value : Bool)
  | number (value : JsNumber)
  | string (value : String)
  | array (items : List Json)
  | object (fields : List (String × Json))

namespace Json

/-- An integer. -/
def int (n : Int) : Json := number (.int n)

/-- `typeof value === "object" && value !== null`, which an array passes. -/
def isRecord : Json → Bool
  | array _ => true
  | object _ => true
  | _ => false

/-- `value.name`, none for undefined.  Of equal names the last one counts. -/
def field? (value : Json) (name : String) : Option Json :=
  match value with
  | object fields => (fields.reverse.find? (·.1 = name)).map Prod.snd
  | _ => none

def asString? : Json → Option String
  | string value => some value
  | _ => none

def asNumber? : Json → Option JsNumber
  | number value => some value
  | _ => none

/-- A value of type `string | null`. -/
def asStringOrNull? : Json → Option (Option String)
  | string value => some (some value)
  | null => some none
  | _ => none

/-- The text of a character in a string literal. -/
def escapeChar (c : Char) : List Char :=
  if c = '"' then ['\\', '"']
  else if c = '\\' then ['\\', '\\']
  else if c = '\n' then ['\\', 'n']
  else if c = '\r' then ['\\', 'r']
  else if c = '\t' then ['\\', 't']
  else if c.toNat = 8 then ['\\', 'b']
  else if c.toNat = 12 then ['\\', 'f']
  else if c.toNat < 32 then
    ['\\', 'u', '0', '0', Nat.digitChar (c.toNat / 16), Nat.digitChar (c.toNat % 16)]
  else [c]

/-- `JSON.stringify` of a string. -/
def quote (s : String) : List Char := '"' :: (s.toList.flatMap escapeChar ++ ['"'])

theorem length_escapeChar_le (c : Char) : (escapeChar c).length ≤ 6 := by
  unfold escapeChar
  repeat' split
  all_goals simp

theorem length_quote_le (s : String) : (quote s).length ≤ 6 * s.length + 2 := by
  have hall : ∀ cs : List Char, (cs.flatMap escapeChar).length ≤ 6 * cs.length := by
    intro cs
    induction cs with
    | nil => exact Nat.le_refl 0
    | cons c cs ih =>
      have := length_escapeChar_le c
      rw [List.flatMap_cons, List.length_append, List.length_cons]
      omega
  have := hall s.toList
  rw [String.length_toList] at this
  rw [quote, List.length_cons, List.length_append, List.length_singleton]
  omega

/-- A string without quotes, backslashes and control characters is written as it is. -/
theorem length_quote {s : String} (h : ∀ c ∈ s.toList, escapeChar c = [c]) :
    (quote s).length = s.length + 2 := by
  have hflat : s.toList.flatMap escapeChar = s.toList := by
    rw [List.flatMap_congr h, List.flatMap_singleton']
  rw [quote, hflat, List.length_cons, List.length_append, List.length_singleton,
    String.length_toList]

/-! ## Conversion to a string -/

/-- An array's `join(",")` of its elements' texts. -/
def commas : List String → String
  | [] => ""
  | [text] => text
  | text :: texts => text ++ "," ++ commas texts

mutual

/-- `String(value)`, none where it throws a `TypeError`.  The method `toString` that an object
inherits is hidden by a field of that name, which is never callable in a parsed value; `valueOf`
then gives no primitive value. -/
def text? (numberText : JsNumber → String) : Json → Option String
  | null => some "null"
  | boolean value => some (if value then "true" else "false")
  | number value => some (numberText value)
  | string value => some value
  | array items => (texts? numberText items).map commas
  | object fields => if "toString" ∈ fields.map Prod.fst then none else some "[object Object]"

/-- The texts of the elements of an array, where `null` has the empty text. -/
def texts? (numberText : JsNumber → String) : List Json → Option (List String)
  | [] => some []
  | null :: items => (texts? numberText items).map ("" :: ·)
  | item :: items =>
      match text? numberText item, texts? numberText items with
      | some text, some texts => some (text :: texts)
      | _, _ => none

end

end Json
