import SpanTree.Text

/-!
# UTF-8

* `Utf8.encode`: the bytes of a text, a lone surrogate written as U+FFFD;
* `Utf8.decode`: reads any bytes; each longest beginning of a character that is cut short or
  spoilt becomes one U+FFFD;
* `Utf8.decodeMarked`: the same after dropping one leading byte order mark.
-/

namespace SpanTree.Utf8

def encode (t : Text) : List UInt8 := t.toChars.flatMap String.utf8EncodeChar

def isContinuation (b : UInt8) : Bool := 0x80 ≤ b && b ≤ 0xBF

/-- The second byte of a three-byte character: the first byte rules out a character that fits two
bytes, and the surrogates. -/
def isSecondOfThree (first b : UInt8) : Bool :=
  (if first = 0xE0 then 0xA0 else 0x80) ≤ b && b ≤ (if first = 0xED then 0x9F else 0xBF)

/-- The second byte of a four-byte character: the first byte rules out a character that fits three
bytes, and those beyond U+10FFFF. -/
def isSecondOfFour (first b : UInt8) : Bool :=
  (if first = 0xF0 then 0x90 else 0x80) ≤ b && b ≤ (if first = 0xF4 then 0x8F else 0xBF)

def payload (b : UInt8) : Nat := b.toNat % 64

def decodeChars : List UInt8 → List Char
  | [] => []
  | a :: rest =>
    if a < 0x80 then Char.ofNat a.toNat :: decodeChars rest
    else if 0xC2 ≤ a && a ≤ 0xDF then
      match rest with
      | [] => [Text.replacement]
      | b :: rest =>
        if isContinuation b then Char.ofNat (a.toNat % 32 * 64 + payload b) :: decodeChars rest
        else Text.replacement :: decodeChars (b :: rest)
    else if 0xE0 ≤ a && a ≤ 0xEF then
      match rest with
      | [] => [Text.replacement]
      | b :: rest =>
        if isSecondOfThree a b then
          match rest with
          | [] => [Text.replacement]
          | c :: rest =>
            if isContinuation c then
              Char.ofNat ((a.toNat % 16 * 64 + payload b) * 64 + payload c) :: decodeChars rest
            else Text.replacement :: decodeChars (c :: rest)
        else Text.replacement :: decodeChars (b :: rest)
    else if 0xF0 ≤ a && a ≤ 0xF4 then
      match rest with
      | [] => [Text.replacement]
      | b :: rest =>
        if isSecondOfFour a b then
          match rest with
          | [] => [Text.replacement]
          | c :: rest =>
            if isContinuation c then
              match rest with
              | [] => [Text.replacement]
              | d :: rest =>
                if isContinuation d then
                  Char.ofNat (((a.toNat % 8 * 64 + payload b) * 64 + payload c) * 64 + payload d) ::
                    decodeChars rest
                else Text.replacement :: decodeChars (d :: rest)
            else Text.replacement :: decodeChars (c :: rest)
        else Text.replacement :: decodeChars (b :: rest)
    else Text.replacement :: decodeChars rest

/-- The text of a byte sequence; a byte order mark is kept. -/
def decode (bytes : List UInt8) : Text := Text.ofChars (decodeChars bytes)

/-- The bytes without one leading byte order mark. -/
def dropMark : List UInt8 → List UInt8
  | 0xEF :: 0xBB :: 0xBF :: rest => rest
  | bytes => bytes

/-- The text of a byte sequence whose leading byte order mark is not part of the text. -/
def decodeMarked (bytes : List UInt8) : Text := decode (dropMark bytes)

end SpanTree.Utf8
