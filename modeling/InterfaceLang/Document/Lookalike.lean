/-!
# Texts that look like other values

A YAML reader takes an unquoted text for null, a truth value or a number if it is spelled like one.
These are the spellings that have to be quoted to stay texts: four of null, six of truth values,
whole numbers of 128 bits in base 2, 8, 10 and 16, digits behind a leading zero, decimal fractions
that are finite as doubles, and the words for infinity and not-a-number that begin with a dot.
-/

namespace InterfaceLang.Document.Lookalike

/-- The spellings of null; the empty text is one of them. -/
def nulls : List String :=
  ["", "null", "Null", "NULL", "~"]

/-- The spellings of truth values. -/
def truths : List String :=
  ["true", "True", "TRUE", "false", "False", "FALSE"]

/-- The spellings of infinity. -/
def infinities : List String :=
  [".inf", ".Inf", ".INF", "+.inf", "+.Inf", "+.INF", "-.inf", "-.Inf", "-.INF"]

/-- The spellings of not-a-number. -/
def nans : List String :=
  [".nan", ".NaN", ".NAN"]

/-! ## Whole numbers -/

/-- The value of a digit, in bases up to 16. -/
def digit? (base : Nat) (c : Char) : Option Nat :=
  let n :=
    if c.isDigit then some (c.toNat - 48)
    else if 'a' ≤ c ∧ c ≤ 'f' then some (c.toNat - 87)
    else if 'A' ≤ c ∧ c ≤ 'F' then some (c.toNat - 55)
    else none
  n.filter (· < base)

/-- The value of a run of digits, of which there is at least one. -/
def natural? (base : Nat) (cs : List Char) : Option Nat :=
  if cs.isEmpty then none
  else cs.foldlM (fun n c => (digit? base c).map (base * n + ·)) 0

/-- The value of a whole number without sign, in decimal digits or after a mark for its base. -/
def magnitude? (cs : List Char) : Option Nat :=
  match cs with
  | '0' :: 'x' :: rest => natural? 16 rest
  | '0' :: 'o' :: rest => natural? 8 rest
  | '0' :: 'b' :: rest => natural? 2 rest
  | cs => natural? 10 cs

/-- Without one leading sign. -/
def unsigned : List Char → List Char
  | '+' :: cs => cs
  | '-' :: cs => cs
  | cs => cs

/-- Digits behind a leading zero, which are no number. -/
def isPadded (cs : List Char) : Bool :=
  match unsigned cs with
  | '0' :: c :: rest => (c :: rest).all Char.isDigit
  | _ => false

/-- Whether a text is spelled like a whole number that fits into 128 bits. -/
def isInteger (cs : List Char) : Bool :=
  match cs with
  | '-' :: rest => (magnitude? rest).any (· ≤ Nat.pow 2 127)
  | '+' :: rest => (magnitude? rest).any (· < Nat.pow 2 128)
  | cs => (magnitude? cs).any (· < Nat.pow 2 128)

/-! ## Decimal fractions -/

/-- A decimal number: its digits as a whole number, and the power of ten to multiply it by. -/
structure Decimal where
  digits : Nat
  exponent : Int

/-- The exponent that a text after the digits spells; nothing at all is the exponent 0. -/
def exponent? (cs : List Char) : Option Int :=
  match cs with
  | [] => some 0
  | e :: rest =>
    if e = 'e' ∨ e = 'E' then
      match rest with
      | '-' :: ds => (natural? 10 ds).map fun n => -(n : Int)
      | '+' :: ds => (natural? 10 ds).map fun n => (n : Int)
      | ds => (natural? 10 ds).map fun n => (n : Int)
    else none

/-- The digits after a decimal point, if there is one, and the rest of the text. -/
def fraction (cs : List Char) : List Char × List Char :=
  match cs with
  | '.' :: rest => (rest.takeWhile Char.isDigit, rest.dropWhile Char.isDigit)
  | cs => ([], cs)

/-- The decimal number that a text without sign spells. -/
def decimal? (cs : List Char) : Option Decimal := do
  let whole := cs.takeWhile Char.isDigit
  let (part, rest) := fraction (cs.dropWhile Char.isDigit)
  let digits ← natural? 10 (whole ++ part)
  let exponent ← exponent? rest
  pure ⟨digits, exponent - part.length⟩

/-- The least number that is rounded to infinity as a double. -/
def overflow : Nat :=
  Nat.pow 2 1024 - Nat.pow 2 970

/-- Whether a decimal number is finite as a double. The number of its digits decides where the
exponent is far from that of the greatest double, which has 309 digits before the point. -/
def Decimal.isFinite (d : Decimal) : Bool :=
  let places := ((Nat.toDigits 10 d.digits).length : Int) + d.exponent
  if d.digits = 0 ∨ places < 300 then true
  else if 320 < places then false
  else if 0 ≤ d.exponent then d.digits * Nat.pow 10 d.exponent.toNat < overflow
  else d.digits < overflow * Nat.pow 10 (-d.exponent).toNat

/-- Whether a text is spelled like a finite decimal number. -/
def isDecimal (cs : List Char) : Bool :=
  (decimal? (unsigned cs)).any Decimal.isFinite

/-- Whether a text is spelled like a value other than a text. -/
def isOtherValue (s : String) : Bool :=
  s ∈ nulls || s ∈ truths || s ∈ infinities || s ∈ nans || isPadded s.toList ||
    isInteger s.toList || isDecimal s.toList

end InterfaceLang.Document.Lookalike
