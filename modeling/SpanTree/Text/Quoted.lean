import SpanTree.Text

/-!
# Quoted text

The spelling of a text between double quotes: the quote, the backslash and the controls are
escaped, a lone surrogate is written as `\u` and four digits, and all else stands for itself.
-/

namespace SpanTree.Quoted

/-- The `\u` spelling of a unit, in four lower-case hexadecimal digits. -/
def hexEscape (u : CodeUnit) : Text :=
  [unit '\\', unit 'u'] ++ Text.ofByte (u.toNat / 256).toUInt8 ++ Text.ofByte u.toUInt8

/-- The spelling of a unit that is not part of a surrogate pair. -/
def escapeUnit (u : CodeUnit) : Text :=
  if u = unit '"' then [unit '\\', unit '"']
  else if u = unit '\\' then [unit '\\', unit '\\']
  else if u = 8 then [unit '\\', unit 'b']
  else if u = 12 then [unit '\\', unit 'f']
  else if u = 10 then [unit '\\', unit 'n']
  else if u = 13 then [unit '\\', unit 'r']
  else if u = 9 then [unit '\\', unit 't']
  else if u < 0x20 || u.isHigh || u.isLow then hexEscape u
  else [u]

/-- The spelling of a text between its quotes: a surrogate pair stands for itself. -/
def escape : Text → Text
  | [] => []
  | [u] => escapeUnit u
  | u :: v :: rest =>
    if u.isHigh && v.isLow then u :: v :: escape rest else escapeUnit u ++ escape (v :: rest)

def quote (t : Text) : Text := unit '"' :: (escape t ++ [unit '"'])

end SpanTree.Quoted
