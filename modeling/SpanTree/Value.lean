import SpanTree.Json.Reader
import SpanTree.Number.Quantity

/-!
# Parsed values

What a parser builds from a document, before it is presented for storage: plain data, dates, and
things that no document contains but a program may hand over.

* `Members.define`: sets a member, at its old place where the key is there already;
* `Members.enumerate`: the order in which the members of an object are listed: the keys that are
  array indices first, in ascending order, then all others as they were set;
* `Json.toValue`: the value of a JSON document, a repeated key taking its last value;
* `Value.typeName`, `Value.text?`: the name of a value in messages, and its own text.
-/

namespace SpanTree

namespace Members

variable {α : Type}

def define (key : Text) (value : α) : List (Text × α) → List (Text × α)
  | [] => [(key, value)]
  | (k, v) :: rest => if k = key then (k, value) :: rest else (k, v) :: define key value rest

def ofList (members : List (Text × α)) : List (Text × α) :=
  members.foldl (fun done m => define m.1 m.2 done) []

/-- The number of a key that is an array index: a canonical decimal below 2³² - 1. -/
def index? (key : Text) : Option Nat :=
  if key.isEmpty || !key.all CodeUnit.isDigit then none
  else if key.head? = some (unit '0') && key.length ≠ 1 then none
  else if key.length ≤ 10 && Text.digitsValue key < 4294967295 then some (Text.digitsValue key)
  else none

/-- Puts a member with an index before the first with a greater one. -/
def insertIndexed (index : Nat) (m : Text × α) :
    List (Nat × (Text × α)) → List (Nat × (Text × α))
  | [] => [(index, m)]
  | (i, n) :: rest =>
    if index < i then (index, m) :: (i, n) :: rest else (i, n) :: insertIndexed index m rest

def indexed (members : List (Text × α)) : List (Nat × (Text × α)) :=
  members.foldl (fun done m => match index? m.1 with
    | some i => insertIndexed i m done
    | none => done) []

/-- The members in the order in which they are listed. -/
def enumerate (members : List (Text × α)) : List (Text × α) :=
  (indexed members).map (·.2) ++ members.filter fun m => (index? m.1).isNone

end Members

/-- What no document contains. -/
inductive Foreign where
  | undefined
  | symbol
  | function
  /-- An object of a class, by the name of the class, and by its own text if it has one. -/
  | ofClass (name : Text) (text : Option Text)
  /-- A document tree, or a handle on one of its nodes. -/
  | target (name : Text)
deriving DecidableEq

structure DateValue where
  /-- Its text, absent where it names no instant. -/
  text? : Option Text
  /-- A date without a time of day. -/
  isDate : Bool := false
  /-- A time of day alone. -/
  isTime : Bool := false
  className : Text
  /-- Its text among other texts. -/
  shown : Text

inductive Value where
  | null
  | boolean (value : Bool)
  | number (value : Binary64)
  | integer (value : Int)
  | string (text : Text)
  | date (date : DateValue)
  | array (items : List Value)
  /-- An object with its members as they were set; a bare one belongs to no class at all. -/
  | object (bare : Bool) (members : List (Text × Value))
  | foreign (value : Foreign)

namespace Json

mutual

def toValue : Json → Value
  | null => .null
  | boolean b => .boolean b
  | number digits => .number (.ofNumeral digits)
  | string t => .string t
  | array items => .array (itemValues items)
  | object members => .object false (Members.ofList (memberValues members))

def itemValues : List Json → List Value
  | [] => []
  | item :: rest => item.toValue :: itemValues rest

/-- The values of the members of an object, as they are written. -/
def memberValues : List (Text × Json) → List (Text × Value)
  | [] => []
  | (key, value) :: rest => (key, value.toValue) :: memberValues rest

end

end Json

namespace Value

def isString : Value → Bool
  | string _ => true
  | _ => false

/-- A double; an integer of any size is none. -/
def isNumber : Value → Bool
  | number _ => true
  | _ => false

def isBoolean : Value → Bool
  | boolean _ => true
  | _ => false

/-- An integer of any size; a double is none, even where its value is whole. -/
def isInteger : Value → Bool
  | integer _ => true
  | _ => false

def isArray : Value → Bool
  | array _ => true
  | _ => false

/-- An object as parsers build them, and not a date or an object of some class. -/
def isTable : Value → Bool
  | object _ _ => true
  | _ => false

/-- Anything that has members: every value but the plain scalars, functions and symbols. -/
def hasMembers : Value → Bool
  | date _ | array _ | object _ _ | foreign (.ofClass _ _) | foreign (.target _) => true
  | _ => false

def isTarget : Value → Bool
  | foreign (.target _) => true
  | _ => false

def isNaN : Value → Bool
  | number .nan => true
  | _ => false

def isPositiveInfinity : Value → Bool
  | number (.infinite false) => true
  | _ => false

def isNegativeInfinity : Value → Bool
  | number (.infinite true) => true
  | _ => false

def isNegativeZero : Value → Bool
  | number x => x.isNegativeZero
  | _ => false

/-- The integer that a double stands for alone; negative zero stands for none. -/
def exactInteger? (x : Binary64) : Option Int :=
  if x.isExactInteger && !x.isNegativeZero then x.toInt? else none

/-- A double that stands alone for an integer. -/
def isExactInteger : Value → Bool
  | number x => (exactInteger? x).isSome
  | _ => false

/-- The name of a value in messages: the class of an object, or the type of anything else. -/
def typeName : Value → Text
  | null => lit "null"
  | boolean _ => lit "boolean"
  | number _ => lit "number"
  | integer _ => lit "bigint"
  | string _ => lit "string"
  | date d => d.className
  | array _ => lit "Array"
  | object bare _ => if bare then lit "object" else lit "Object"
  | foreign .undefined => lit "undefined"
  | foreign .symbol => lit "symbol"
  | foreign .function => lit "function"
  | foreign (.ofClass name _) | foreign (.target name) =>
    if name.isEmpty then lit "object" else name

def objectText : Text := lit "[object Object]"

/-- The name of the member by which an object gives its own text. -/
def textMember : Text := lit "toString"

/-- The name of the member that an object without a text may answer by. -/
def valueMember : Text := lit "valueOf"

def isFunction : Value → Bool
  | foreign .function => true
  | _ => false

/-- The text of an object: a fixed phrase, unless it is a bare one or has data of its own in the
place of its text. Then only a function can answer, and it answers nothing. -/
def objectText? (bare : Bool) (members : List (Text × Value)) : Option Text :=
  if !bare && !members.any (fun m => m.1 = textMember) then some objectText
  else if members.any fun m => (m.1 = textMember || m.1 = valueMember) && m.2.isFunction then
    some (lit "undefined")
  else none

def allTexts : List (Option Text) → Option (List Text)
  | [] => some []
  | t :: rest => do return (← t) :: (← allTexts rest)

mutual

/-- The text of a value where a text is wanted: the items of an array stand between commas, and some
objects have none. -/
def text? : Value → Option Text
  | null => some (lit "null")
  | boolean b => some (if b then lit "true" else lit "false")
  | number x => some x.text
  | integer n => some (.ofInt n)
  | string t => some t
  | date d => some d.shown
  | array items => (allTexts (itemTexts items)).map (Text.join (lit ","))
  | object bare members => objectText? bare members
  | foreign .undefined => some (lit "undefined")
  | foreign .symbol => some (lit "Symbol()")
  | foreign .function => some (lit "() => \x7b\x7d")
  | foreign (.ofClass _ text) => text
  | foreign (.target _) => some objectText

/-- The texts of the items of an array: nothing for a missing value, and none for a symbol. -/
def itemTexts : List Value → List (Option Text)
  | [] => []
  | null :: rest => some [] :: itemTexts rest
  | foreign .undefined :: rest => some [] :: itemTexts rest
  | foreign .symbol :: rest => none :: itemTexts rest
  | item :: rest => text? item :: itemTexts rest

end

end Value

end SpanTree
