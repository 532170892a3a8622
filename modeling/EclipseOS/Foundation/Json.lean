import Mathlib.Data.String.Basic
import Mathlib.Data.UInt

/-! # JSON values

A value as a parser hands it over. An object's fields are kept in the order of their
keys, so that two values that are equal as values are equal. -/

namespace EclipseOS.Foundation

/-- A number: a `u64`, or whatever else was written. -/
inductive Number where
  | unsigned (n : UInt64)
  | other (text : String)
  deriving DecidableEq

mutual
inductive Json where
  | null
  | bool (value : Bool)
  | num (value : Number)
  | str (value : String)
  | arr (items : JsonItems)
  | obj (fields : JsonFields)

inductive JsonItems where
  | nil
  | cons (head : Json) (tail : JsonItems)

inductive JsonFields where
  | nil
  | cons (key : String) (value : Json) (tail : JsonFields)
end

deriving instance DecidableEq for Json
deriving instance DecidableEq for JsonItems
deriving instance DecidableEq for JsonFields

namespace JsonItems

def ofList : List Json → JsonItems
  | [] => .nil
  | head :: tail => .cons head (ofList tail)

def toList : JsonItems → List Json
  | .nil => []
  | .cons head tail => head :: tail.toList

@[simp] theorem toList_ofList (items : List Json) : (ofList items).toList = items := by
  induction items with
  | nil => rfl
  | cons head tail induction => rw [ofList, toList, induction]

@[simp] theorem ofList_toList : (items : JsonItems) → ofList items.toList = items
  | .nil => rfl
  | .cons head tail => by rw [toList, ofList, ofList_toList tail]

end JsonItems

namespace JsonFields

/-- Puts a field in its place in the order, or in the place of the one of its key. -/
def set (key : String) (value : Json) : JsonFields → JsonFields
  | .nil => .cons key value .nil
  | .cons name old tail =>
    if key = name then
      .cons key value tail
    else if key < name then
      .cons key value (.cons name old tail)
    else
      .cons name old (tail.set key value)

def ofList (fields : List (String × Json)) : JsonFields :=
  fields.foldl (fun built field => built.set field.1 field.2) .nil

def get (key : String) : JsonFields → Option Json
  | .nil => none
  | .cons name value tail => if name = key then some value else tail.get key

theorem get_set (key name : String) (value : Json) : (fields : JsonFields) →
    (fields.set key value).get name = if key = name then some value else fields.get name
  | .nil => rfl
  | .cons held old tail => by
      have rest := get_set key name value tail
      rw [set]
      by_cases same : key = held
      · rw [if_pos same, get, get, ← same]
        split <;> rfl
      · rw [if_neg same]
        split
        · rw [get]
        · rw [get, get, rest]
          by_cases here : held = name
          · rw [if_pos here, if_pos here, if_neg (here ▸ same)]
          · rw [if_neg here, if_neg here]

end JsonFields

namespace Json

/-- `Value::get`. -/
def get (value : Json) (key : String) : Option Json :=
  match value with
  | obj fields => fields.get key
  | _ => none

def set (value : Json) (key : String) (field : Json) : Json :=
  match value with
  | obj fields => .obj (fields.set key field)
  | other => other

def asStr : Json → Option String
  | str value => some value
  | _ => none

def asU64 : Json → Option UInt64
  | num (.unsigned n) => some n
  | _ => none

def asArray : Json → Option (List Json)
  | arr items => some items.toList
  | _ => none

def isObject : Json → Bool
  | obj _ => true
  | _ => false

def ofNat (n : Nat) : Json := .num (.unsigned (UInt64.ofNat n))

def array (items : List Json) : Json := .arr (.ofList items)

def object (fields : List (String × Json)) : Json := .obj (.ofList fields)

end Json

end EclipseOS.Foundation

/-! ## JSON values as text

The compact text a value is written as. -/

namespace EclipseOS.Foundation

namespace Json

def hexDigit (n : Nat) : Char := if n < 10 then Char.ofNat (48 + n) else Char.ofNat (87 + n)

def escape (char : Char) : List Char :=
  if char = '"' then ['\\', '"']
  else if char = '\\' then ['\\', '\\']
  else if char = '\n' then ['\\', 'n']
  else if char = '\r' then ['\\', 'r']
  else if char = '\t' then ['\\', 't']
  else if char.toNat = 8 then ['\\', 'b']
  else if char.toNat = 12 then ['\\', 'f']
  else if char.toNat < 32 then
    ['\\', 'u', '0', '0', hexDigit (char.toNat / 16), hexDigit (char.toNat % 16)]
  else [char]

def quote (text : String) : String := "\"" ++ String.ofList (text.toList.flatMap escape) ++ "\""

def numberText : Number → String
  | .unsigned n => toString n.toNat
  | .other text => text

mutual
/-- `Value::to_string`. -/
def text : Json → String
  | null => "null"
  | bool value => if value then "true" else "false"
  | num value => numberText value
  | str value => quote value
  | arr items => "[" ++ itemsText true items ++ "]"
  | obj fields => "\x7b" ++ fieldsText true fields ++ "\x7d"

def itemsText (first : Bool) : JsonItems → String
  | .nil => ""
  | .cons head tail => (if first then "" else ",") ++ head.text ++ itemsText false tail

def fieldsText (first : Bool) : JsonFields → String
  | .nil => ""
  | .cons key value tail =>
    (if first then "" else ",") ++ quote key ++ ":" ++ value.text ++ fieldsText false tail
end

/-! ## One line -/

def OneLine (text : String) : Prop := '\n' ∉ text.toList ∧ '\r' ∉ text.toList

instance (text : String) : Decidable (OneLine text) := inferInstanceAs (Decidable (_ ∧ _))

theorem oneLine_append {left right : String} (leftLine : OneLine left)
    (rightLine : OneLine right) : OneLine (left ++ right) := by
  rw [OneLine, String.toList_append, List.mem_append, List.mem_append, not_or, not_or]
  exact ⟨⟨leftLine.1, rightLine.1⟩, ⟨leftLine.2, rightLine.2⟩⟩

theorem oneLine_escape (char : Char) : '\n' ∉ escape char ∧ '\r' ∉ escape char := by
  have digits : ∀ n < 16, hexDigit n ≠ '\n' ∧ hexDigit n ≠ '\r' := by decide
  rw [escape]
  split_ifs with quoted slash newline return_ tab back feed control
  on_goal 8 =>
    have high := digits (char.toNat / 16) (by omega)
    have low := digits (char.toNat % 16) (by omega)
    simp [high.1.symm, high.2.symm, low.1.symm, low.2.symm]
  on_goal 8 => exact ⟨by simpa [eq_comm] using newline, by simpa [eq_comm] using return_⟩
  all_goals decide

theorem oneLine_quote (text : String) : OneLine (quote text) := by
  have inner : OneLine (String.ofList (text.toList.flatMap escape)) := by
    simp only [OneLine, String.toList_ofList, List.mem_flatMap, not_exists, not_and]
    exact ⟨fun char _ => (oneLine_escape char).1, fun char _ => (oneLine_escape char).2⟩
  exact oneLine_append (oneLine_append (by decide) inner) (by decide)

theorem oneLine_nat (n : Nat) : OneLine (toString n) := by
  have digit : ∀ char ∈ (toString n).toList, char.isDigit := by
    intro char member
    rw [Nat.toString_eq_repr, Nat.toList_repr] at member
    exact Nat.isDigit_of_mem_toDigits (by decide) (by decide) member
  exact ⟨fun member => absurd (digit _ member) (by decide),
    fun member => absurd (digit _ member) (by decide)⟩

mutual
/-- Every number of it is written on one line. -/
def Tidy : Json → Prop
  | num (.other text) => OneLine text
  | arr items => TidyItems items
  | obj fields => TidyFields fields
  | _ => True

def TidyItems : JsonItems → Prop
  | .nil => True
  | .cons head tail => head.Tidy ∧ TidyItems tail

def TidyFields : JsonFields → Prop
  | .nil => True
  | .cons _ value tail => value.Tidy ∧ TidyFields tail
end

mutual
theorem oneLine_text : (value : Json) → value.Tidy → OneLine value.text
  | null, _ => by rw [text]; decide
  | bool true, _ => by rw [text]; decide
  | bool false, _ => by rw [text]; decide
  | num (.unsigned n), _ => by rw [text]; exact oneLine_nat n.toNat
  | num (.other written), tidy => by rw [text]; exact tidy
  | str value, _ => by rw [text]; exact oneLine_quote value
  | arr items, tidy => by
      rw [text]
      exact oneLine_append (oneLine_append (by decide) (oneLine_itemsText true items tidy))
        (by decide)
  | obj fields, tidy => by
      rw [text]
      exact oneLine_append (oneLine_append (by decide) (oneLine_fieldsText true fields tidy))
        (by decide)

theorem oneLine_itemsText (first : Bool) : (items : JsonItems) → TidyItems items →
    OneLine (itemsText first items)
  | .nil, _ => by rw [itemsText]; decide
  | .cons head tail, tidy => by
      have comma : OneLine (if first then "" else ",") := by cases first <;> decide
      rw [itemsText]
      exact oneLine_append (oneLine_append comma (oneLine_text head tidy.1))
        (oneLine_itemsText false tail tidy.2)

theorem oneLine_fieldsText (first : Bool) : (fields : JsonFields) → TidyFields fields →
    OneLine (fieldsText first fields)
  | .nil, _ => by rw [fieldsText]; decide
  | .cons key value tail, tidy => by
      have comma : OneLine (if first then "" else ",") := by cases first <;> decide
      have colon : OneLine ":" := by decide
      have named := oneLine_append (oneLine_append comma (oneLine_quote key)) colon
      rw [fieldsText]
      exact oneLine_append (oneLine_append named (oneLine_text value tidy.1))
        (oneLine_fieldsText false tail tidy.2)
end

theorem tidyFields_set {key : String} {value : Json} (tidy : value.Tidy) :
    (fields : JsonFields) → TidyFields fields → TidyFields (fields.set key value)
  | .nil, _ => ⟨tidy, trivial⟩
  | .cons name old tail, held => by
      rw [JsonFields.set]
      split
      · exact ⟨tidy, held.2⟩
      · split
        · exact ⟨tidy, held⟩
        · exact ⟨held.1, tidyFields_set tidy tail held.2⟩

theorem tidy_set {value field : Json} {key : String} (tidy : value.Tidy) (put : field.Tidy) :
    (value.set key field).Tidy := by
  cases value with
  | obj fields => exact tidyFields_set put fields tidy
  | _ => exact tidy

theorem tidy_object {fields : List (String × Json)} (tidy : ∀ field ∈ fields, field.2.Tidy) :
    (object fields).Tidy := by
  have built : ∀ (fields : List (String × Json)) (start : JsonFields), TidyFields start →
      (∀ field ∈ fields, field.2.Tidy) →
      TidyFields (fields.foldl (fun built field => built.set field.1 field.2) start) := by
    intro fields
    induction fields with
    | nil => exact fun start held _ => held
    | cons field fields induction =>
      intro start held tidy
      rw [List.forall_mem_cons] at tidy
      exact induction _ (tidyFields_set tidy.1 start held) tidy.2
  exact built fields .nil trivial tidy

end Json

end EclipseOS.Foundation
