import SpanTree.Handler

/-!
# Source values

What every format presents for storage: tables, arrays, scalars, and values that have no place in a
tree. The members of a table and the items of an array are listed when the container is written; a
listing may break off with an error, after the members that it had already given.
-/

namespace SpanTree

inductive TemporalKind where
  | date
  | time
  | datetime
deriving DecidableEq, Repr

/-- A value that becomes a single text. The text of a temporal value is the format's own. -/
inductive Scalar where
  | string (text : Text)
  | integer (value : Int)
  | float (value : Binary64)
  | boolean (value : Bool)
  | null
  | temporal (kind : TemporalKind) (text : Text)
deriving DecidableEq

inductive Ending where
  | complete
  | broken (error : Raised)
deriving DecidableEq

/-- A value presented for storage. -/
inductive Source where
  | scalar (value : Scalar)
  | table (members : List (Text × Source)) (ending : Ending)
  | array (items : List Source) (ending : Ending)
  /-- A value that a format met but cannot place; the description names it. -/
  | unsupported (description : Text)
  /-- An object that claims a kind outside this type. -/
  | unknown (kind : Text)
  /-- Nothing, where a value is due, or an object whose kind has no text. -/
  | absent

namespace Source

/-- A table whose listing does not break off. -/
def ofMembers (members : List (Text × Source)) : Source := table members .complete

def ofItems (items : List Source) : Source := array items .complete

end Source

namespace Scalar

def positiveInfinity : Text := lit ".inf"

def negativeInfinity : Text := lit "-.inf"

def notANumber : Text := lit ".nan"

/-- The stored text of a float: the shortest digits that read back, the sign of zero kept, and
spellings of their own for the values that are not finite. -/
def floatText : Binary64 → Text
  | .infinite false => positiveInfinity
  | .infinite true => negativeInfinity
  | .nan => notANumber
  | x => x.signedText

def integerText (n : Int) : Text := .ofInt n

def booleanText (b : Bool) : Text := if b then lit "true" else lit "false"

def text : Scalar → Text
  | string t => t
  | integer n => integerText n
  | float x => floatText x
  | boolean b => booleanText b
  | null => lit "null"
  | temporal _ t => t

/-- Strings alone are marked as quoted, so that they stay apart from other values of equal text. -/
def isQuoted : Scalar → Bool
  | string _ => true
  | _ => false

end Scalar

end SpanTree
