import SpanTree.Json.Fault

/-!
# JSON numbers

`Json.scanNumber` splits a number from the front of a text: an optional minus sign, a whole part
without leading zeros, and optionally a fraction and an exponent. `Json.isNumber` holds of the texts
that are a number from end to end.
-/

namespace SpanTree.Json

/-- The whole part: a single zero, or digits that do not begin with one. -/
def scanWhole (t : Text) : Except Fault (Text × Text) :=
  match t with
  | [] => fault .unexpected []
  | u :: rest =>
    if !u.isDigit then fault .unexpected t
    else if u = unit '0' then
      if rest.head?.any CodeUnit.isDigit then fault .unexpected rest else .ok ([u], rest)
    else .ok (u :: rest.takeWhile CodeUnit.isDigit, rest.dropWhile CodeUnit.isDigit)

/-- At least one digit, after the units in `lead`. -/
def scanDigits (cause : Cause) (lead t : Text) : Except Fault (Text × Text) :=
  if t.head?.any CodeUnit.isDigit then
    .ok (lead ++ t.takeWhile CodeUnit.isDigit, t.dropWhile CodeUnit.isDigit)
  else fault cause t

def scanFraction (t : Text) : Except Fault (Text × Text) :=
  match t with
  | [] => .ok ([], [])
  | u :: rest => if u = unit '.' then scanDigits .missingFraction [u] rest else .ok ([], t)

def scanExponent (t : Text) : Except Fault (Text × Text) :=
  match t with
  | [] => .ok ([], [])
  | u :: rest =>
    if u = unit 'e' || u = unit 'E' then
      match rest with
      | [] => scanDigits .missingExponent [u] []
      | v :: after =>
        if v = unit '+' || v = unit '-' then scanDigits .missingExponent [u, v] after
        else scanDigits .missingExponent [u] rest
    else .ok ([], t)

def scanUnsigned (t : Text) : Except Fault (Text × Text) := do
  let (whole, rest) ← scanWhole t
  let (fraction, rest) ← scanFraction rest
  let (exponent, rest) ← scanExponent rest
  return (whole ++ fraction ++ exponent, rest)

def scanNumber (t : Text) : Except Fault (Text × Text) :=
  match t with
  | [] => fault .unexpected []
  | u :: rest =>
    if u = unit '-' then
      if rest.head?.any CodeUnit.isDigit then do
        let (digits, rest) ← scanUnsigned rest
        return (u :: digits, rest)
      else fault .minusAlone rest
    else scanUnsigned t

/-- Whether a text is a JSON number and nothing else. -/
def isNumber (t : Text) : Bool :=
  match scanNumber t with
  | .ok (_, []) => true
  | _ => false

end SpanTree.Json
