import SpanTree.Text.Quoted

/-!
# Texts as literals

How a text is shown in a message about an argument: between quotes of a kind that it does not
contain as far as there is one, controls, backslashes and lone surrogates escaped. A text of more
than a line's width is shown line by line, and only its beginning is shown.

* `Literal.quoteFor`, `Literal.line`: the quote that suits a text, and the text between its quotes;
* `Literal.spelled`: a text of any length, line by line where it is long;
* `Literal.shown`: the same up to the length that messages show.
-/

namespace SpanTree.Literal

/-- A control as a backslash, `x` and two upper-case digits. -/
def controlEscape (u : CodeUnit) : Text :=
  lit "\\x" ++ (Text.ofByte u.toUInt8).map fun d => if d.isDigit then d else d - 32

/-- The spelling of a unit that is not part of a surrogate pair. -/
def escapeUnit (quote u : CodeUnit) : Text :=
  if u = 8 then lit "\\b" else if u = 9 then lit "\\t" else if u = 10 then lit "\\n"
  else if u = 12 then lit "\\f" else if u = 13 then lit "\\r"
  else if u = unit '\\' || u = quote then [unit '\\', u]
  else if u < 0x20 || (0x7F ≤ u && u < 0xA0) then controlEscape u
  else if u.isHigh || u.isLow then Quoted.hexEscape u
  else [u]

/-- The spelling of a text between its quotes: a surrogate pair stands for itself. -/
def escape (quote : CodeUnit) : Text → Text
  | [] => []
  | [u] => escapeUnit quote u
  | u :: v :: rest =>
    if u.isHigh && v.isLow then u :: v :: escape quote rest
    else escapeUnit quote u ++ escape quote (v :: rest)

/-- Whether a dollar sign stands before an opening brace. -/
def hasHole : Text → Bool
  | [] => false
  | u :: rest => (u = unit '$' && rest.head? = some (unit '\x7b')) || hasHole rest

/-- Single quotes, unless these occur; then double quotes, unless these occur too; then back quotes,
unless the text would read differently between them. -/
def quoteFor (t : Text) : CodeUnit :=
  if !t.contains (unit '\'') then unit '\''
  else if !t.contains (unit '"') then unit '"'
  else if !t.contains (unit '\x60') && !hasHole t then unit '\x60'
  else unit '\''

def line (t : Text) : Text :=
  let quote := quoteFor t
  quote :: escape quote t ++ [quote]

/-- The lines of a text, each with the line feed that ends it. -/
def linesOf : Text → List Text
  | [] => []
  | u :: rest =>
    if u = unit '\n' then [u] :: linesOf rest
    else match linesOf rest with
      | [] => [[u]]
      | line :: lines => (u :: line) :: lines

/-- Texts of more units than this are shown line by line. -/
def lineWidth : Nat := 76

/-- A text as a literal, or as the sum of the literals of its lines. -/
def spelled (t : Text) : Text :=
  if lineWidth < t.length then Text.join (lit " +\n  ") ((linesOf t).map line) else line t

/-- No more units than this are looked at. -/
def longest : Nat := 10000

def shownLength : Nat := 128

def shown (t : Text) : Text :=
  let s := spelled (t.take longest)
  if shownLength < s.length then s.take shownLength ++ lit "..." else s

end SpanTree.Literal
