/-! # Text as bytes

Bytes are read as characters in UTF-8. A byte that does not belong to the
encoding of a character is kept as a stray byte of its own, so reading loses
nothing: the bytes of the symbols are the bytes read.
-/

namespace Octet

/-- The bytes of a text. -/
def utf8Bytes (text : String) : List UInt8 := text.toList.flatMap String.utf8EncodeChar

/-- A character, or a byte that belongs to none. -/
inductive Symbol where
  | char (c : Char)
  /-- A byte outside of every character; `cut` tells that it starts a character of which the end
  of the text has cut off the rest. -/
  | stray (byte : UInt8) (cut : Bool)
  deriving DecidableEq, Repr

namespace Symbol

/-- The bytes of a symbol. -/
def bytes : Symbol → List UInt8
  | char c => String.utf8EncodeChar c
  | stray byte _ => [byte]

/-- The number of bytes of a symbol. -/
def width : Symbol → Nat
  | char c => c.utf8Size
  | stray _ _ => 1

/-- A symbol as a character; a stray byte is the replacement character. -/
def toChar : Symbol → Char
  | char c => c
  | stray _ _ => '\ufffd'

end Symbol

/-- The text of some symbols; a stray byte shows as the replacement character. -/
def symbolsText (symbols : List Symbol) : String := String.ofList (symbols.map Symbol.toChar)

/-- What a leading byte asks of the bytes after it: the range of the second byte, and the number
of bytes that follow the second. -/
def leadingByte? (lead : UInt8) : Option (UInt8 × UInt8 × Nat) :=
  if lead < 0xC2 then none
  else if lead < 0xE0 then some (0x80, 0xBF, 0)
  else if lead = 0xE0 then some (0xA0, 0xBF, 1)
  else if lead = 0xED then some (0x80, 0x9F, 1)
  else if lead < 0xF0 then some (0x80, 0xBF, 1)
  else if lead = 0xF0 then some (0x90, 0xBF, 2)
  else if lead < 0xF4 then some (0x80, 0xBF, 2)
  else if lead = 0xF4 then some (0x80, 0x8F, 2)
  else none

/-- The six payload bits of a byte that continues a character. -/
def payload (byte : UInt8) : Nat := byte.toNat % 64

/-- Whether a byte can only continue a character. -/
def isTail (byte : UInt8) : Bool := 0x80 ≤ byte && byte ≤ 0xBF

/-- The symbol that starts with `lead`, and how many of the bytes after `lead` belong to it. -/
def firstSymbol (lead : UInt8) (rest : List UInt8) : Symbol × Nat :=
  if lead < 0x80 then (.char (Char.ofNat lead.toNat), 0)
  else
    match leadingByte? lead with
    | none => (.stray lead false, 0)
    | some (low, high, more) =>
      match rest with
      | [] => (.stray lead true, 0)
      | second :: rest =>
        if second < low ∨ high < second then (.stray lead false, 0)
        else
          match more, rest with
          | 0, _ => (.char (Char.ofNat (lead.toNat % 32 * 64 + payload second)), 1)
          | _, [] => (.stray lead true, 0)
          | 1, third :: _ =>
            if isTail third then
              (.char (Char.ofNat
                ((lead.toNat % 16 * 64 + payload second) * 64 + payload third)), 2)
            else (.stray lead false, 0)
          | _, third :: rest =>
            if isTail third then
              match rest with
              | [] => (.stray lead true, 0)
              | fourth :: _ =>
                if isTail fourth then
                  (.char (Char.ofNat
                    (((lead.toNat % 8 * 64 + payload second) * 64 + payload third) * 64
                      + payload fourth)), 3)
                else (.stray lead false, 0)
            else (.stray lead false, 0)

/-- Reads bytes after `skip` of them that belong to the last symbol of `done`, which holds the
symbols read so far, the last one first. -/
def readSymbols (done : List Symbol) : Nat → List UInt8 → List Symbol
  | _, [] => done.reverse
  | skip + 1, _ :: rest => readSymbols done skip rest
  | 0, lead :: rest =>
    let (symbol, skip) := firstSymbol lead rest
    readSymbols (symbol :: done) skip rest

/-- The symbols of some bytes. -/
def decodeUtf8 (bytes : List UInt8) : List Symbol := readSymbols [] 0 bytes

/-- The symbols of a text, all of them characters. -/
def textSymbols (text : String) : List Symbol := text.toList.map .char

/-- The text of some bytes, if every byte belongs to a character. -/
def utf8Text? (bytes : List UInt8) : Option String :=
  let symbols := decodeUtf8 bytes
  if symbols.all (fun | .char _ => true | .stray _ _ => false) then some (symbolsText symbols)
  else none

end Octet
