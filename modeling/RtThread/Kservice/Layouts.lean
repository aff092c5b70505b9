import RtThread.Kservice.Integers

/-! How integers are laid out in a width and a precision, and what a whole format of texts and integers gives. -/

set_option autoImplicit false
namespace RtThread.Kservice

open Lib

/-! ## One integer -/

open Classical in
/-- The layout that ISO C specifies; a precision of -1 stands for none. -/
noncomputable def Layout.spaced (layout : Layout) (word : UInt32) (precision : Int32) (sign : UInt8) (digits : List UInt8) :
    List UInt8 :=
  let number := List.replicate (precision.toInt - digits.length).toNat '0'.toUInt8 ++ digits
  let padding := ((layout.width.field word).toInt - number.length - (signText sign).length).toNat
  if layout.OnLeft word then signText sign ++ (number ++ List.replicate padding ' '.toUInt8)
  else if .zero ∈ layout.flags ∧ precision = -1 then signText sign ++ (List.replicate padding '0'.toUInt8 ++ number)
  else List.replicate padding ' '.toUInt8 ++ (signText sign ++ number)

/-- A precision is above 0, and comes without the flag 0 unless the number is on the left. -/
structure Layout.Regular (layout : Layout) (word : UInt32) (precision : Int32) : Prop where
  width : -1 ≤ (layout.width.field word).toInt
  precision : precision = -1 ∨
    (0 < precision.toInt ∧ precision.toInt ≤ 2147483644 ∧ (.zero ∈ layout.flags → layout.OnLeft word))

inductive Piece where
  | text (chars : List UInt8) (plain : '%'.toUInt8 ∉ chars)
  | integer (layout : Layout) (length : Length) (conv : Conversion)

/-- How many arguments are taken. -/
def Piece.taken : Piece → Nat
  | text .. => 0
  | integer layout .. => layout.taken + 1

section
variable (build : Build) (args : LongLong.VaList)

/-- What a piece gives when its first argument is the `n`-th. -/
noncomputable def Piece.output (n : Nat) : Piece → List UInt8
  | text chars _ => chars
  | integer layout length conv =>
    let value := layout.value args n length conv
    layout.spaced (args.word n) (layout.precision.field (args.word (n + layout.width.taken)))
      (signChar layout.flags conv.signed value) (numeral conv.digit conv.radix value.natAbs)

def Piece.Prints (n : Nat) : Piece → Prop
  | text .. => True
  | integer layout length conv =>
    build.Supports length ∧ ¬Misread length conv (args.longLong (n + layout.taken)) ∧
      layout.Regular (args.word n) (layout.precision.field (args.word (n + layout.width.taken)))

end

end RtThread.Kservice
