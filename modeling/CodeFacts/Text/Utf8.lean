/-!
# Decoding bytes that may not be UTF-8

Every longest run of bytes that starts a character and breaks off is decoded as one replacement
character, and so is every byte that cannot start one. What is valid is decoded as it is.
-/

namespace CodeFacts.Text

/-- The character that stands for bytes which are not UTF-8. -/
def replacement : Char :=
  Char.ofNat 0xfffd

/-- Whether a byte lies between two bounds. -/
def inRange (low high value : UInt8) : Bool :=
  decide (low ≤ value) && decide (value ≤ high)

/-- Whether a byte continues a character. -/
def isContinuation (value : UInt8) : Bool :=
  inRange 0x80 0xbf value

/-- The number of bytes of the character that a byte starts, if it starts one. -/
def sequenceLength? (first : UInt8) : Option Nat :=
  if first < 0x80 then some 1
  else if inRange 0xc2 0xdf first then some 2
  else if inRange 0xe0 0xef first then some 3
  else if inRange 0xf0 0xf4 first then some 4
  else none

/-- Whether a byte may follow the first byte of a character: overlong forms, surrogates and
numbers beyond the last code point are ruled out here. -/
def isSecond (first second : UInt8) : Bool :=
  if first == 0xe0 then inRange 0xa0 0xbf second
  else if first == 0xed then inRange 0x80 0x9f second
  else if first == 0xf0 then inRange 0x90 0xbf second
  else if first == 0xf4 then inRange 0x80 0x8f second
  else isContinuation second

/-- The six bits that a continuation byte carries. -/
def payload (value : UInt8) : Nat :=
  value.toNat % 0x40

/-- Decodes bytes, with a replacement character for what is not UTF-8. -/
def decodeLossy : List UInt8 → List Char
  | [] => []
  | first :: rest =>
    match sequenceLength? first with
    | none => replacement :: decodeLossy rest
    | some 1 => Char.ofNat first.toNat :: decodeLossy rest
    | some length =>
      match rest with
      | [] => [replacement]
      | second :: rest =>
        if !isSecond first second then replacement :: decodeLossy (second :: rest)
        else if length == 2 then
          Char.ofNat (first.toNat % 0x20 * 0x40 + payload second) :: decodeLossy rest
        else
          match rest with
          | [] => [replacement]
          | third :: rest =>
            if !isContinuation third then replacement :: decodeLossy (third :: rest)
            else if length == 3 then
              Char.ofNat ((first.toNat % 0x10 * 0x40 + payload second) * 0x40 + payload third) ::
                decodeLossy rest
            else
              match rest with
              | [] => [replacement]
              | fourth :: rest =>
                if !isContinuation fourth then replacement :: decodeLossy (fourth :: rest)
                else
                  Char.ofNat (((first.toNat % 0x8 * 0x40 + payload second) * 0x40 +
                    payload third) * 0x40 + payload fourth) :: decodeLossy rest

/-- The text of bytes, with a replacement character for what is not UTF-8. -/
def lossyText (bytes : ByteArray) : String :=
  String.ofList (decodeLossy bytes.toList)

end CodeFacts.Text
