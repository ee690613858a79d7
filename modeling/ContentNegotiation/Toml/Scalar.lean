import ContentNegotiation.Toml.Value

/-!
# Numbers and dates of a TOML document

Underscores may stand between two digits. Decimal integers have no leading zero; other bases have a
mark and no sign. Some texts have the form of an integer and write no number; they are an error only
where the number is asked for. A float has a fraction, an exponent or both. Dates and times are
checked against the calendar but have no further meaning here.
-/

namespace ContentNegotiation.Toml

/-- The digits of a row in which single underscores may stand between digits. -/
def plainDigits (p : Char → Bool) : Text → Option Text
  | [] => none
  | [c] => if p c then some [c] else none
  | c :: '_' :: t => if p c then (plainDigits p t).map (c :: ·) else none
  | c :: t => if p c then (plainDigits p t).map (c :: ·) else none

/-- The value of a digit in any base up to sixteen. -/
def baseDigit (c : Char) : Nat :=
  if c.isDigit then c.toNat - '0'.toNat else c.toLower.toNat - 'a'.toNat + 10

/-- Reads digits of a base. -/
def readBase (base : Nat) (p : Char → Bool) (t : Text) : Option Nat :=
  (plainDigits p t).map fun ds => ds.foldl (fun n c => base * n + baseDigit c) 0

/-- Reads the digits of a base behind its mark; there may be none, which write no number. -/
def readMarked (base : Nat) (p : Char → Bool) (t : Text) : Option (Option Int) :=
  if t.isEmpty then some none else (readBase base p t).map fun n => some n

/-- Decimal digits without a leading zero. -/
def decimalDigits (t : Text) : Option Text :=
  match plainDigits Char.isDigit t with
  | some ('0' :: _ :: _) => none
  | ds => ds

/-- A hexadecimal digit. -/
def isHex (c : Char) : Bool :=
  c.isDigit || ('a' ≤ c && c ≤ 'f') || ('A' ≤ c && c ≤ 'F')

/-- What may follow the digits of an integer behind an underscore: groups that begin with a digit of
some base, and all but the last one end with one. -/
def areGroups : List Text → Bool
  | [] => true
  | [g] => g.head?.any isHex
  | g :: gs => g.head?.any isHex && g.getLast?.any isHex && areGroups gs

/-- Reads decimal digits. If underscores lead to groups with other characters, no number is
written. -/
def readDecimal (negative : Bool) (t : Text) : Option (Option Int) :=
  match decimalDigits t with
  | some ds =>
    some (some (if negative then -(Decimal.natOfDigits ds : Int) else Decimal.natOfDigits ds))
  | none =>
    match Text.splitAll '_' t with
    | first :: g :: gs =>
      if (decimalDigits first).isSome && first != ['0'] && areGroups (g :: gs) then some none
      else none
    | _ => none

/-- Reads an integer: nothing, no number, or a number. -/
def readInteger : Text → Option (Option Int)
  | '0' :: 'x' :: t => readMarked 16 isHex t
  | '0' :: 'o' :: t => readMarked 8 (fun c => '0' ≤ c && c ≤ '7') t
  | '0' :: 'b' :: t => readMarked 2 (fun c => c = '0' || c = '1') t
  | t =>
    let (negative, t) := Decimal.splitSign t
    if t.any fun c => c = '.' || c = 'e' || c = 'E' then none else readDecimal negative t

/-- Splits at an exponent mark, in either case. -/
def splitExponent (t : Text) : Text × Option Text :=
  let (before, rest) := t.span fun c => c != 'e' && c != 'E'
  match rest with
  | [] => (before, none)
  | _ :: exponent => (before, some exponent)

/-- Reads the digits after an exponent mark. -/
def readExponent (t : Text) : Option Int :=
  let (negative, t) := Decimal.splitSign t
  (plainDigits Char.isDigit t).map fun ds =>
    if negative then -(Decimal.natOfDigits ds : Int) else Decimal.natOfDigits ds

/-- Reads a float without its sign. -/
def readUnsignedFloat (negative : Bool) (t : Text) : Option Numeral := do
  let (mantissa, exponent) := splitExponent t
  let power ← match exponent with
    | some e => readExponent e
    | none => some 0
  match Text.splitFirst '.' mantissa with
  | some (whole, fraction) =>
    let whole ← decimalDigits whole
    let fraction ← plainDigits Char.isDigit fraction
    some (.finite ⟨negative, Decimal.natOfDigits (whole ++ fraction), power - fraction.length⟩)
  | none =>
    if exponent.isNone then none
    else
      let whole ← decimalDigits mantissa
      some (.finite ⟨negative, Decimal.natOfDigits whole, power⟩)

/-- Reads a float. -/
def readFloat (t : Text) : Option Numeral :=
  let (negative, body) := Decimal.splitSign t
  if body = "inf".toList then some (.infinity negative)
  else if body = "nan".toList then some .nan
  else readUnsignedFloat negative body

/-- Reads exactly `n` digits. -/
def takeNumber (n : Nat) (t : Text) : Option (Nat × Text) :=
  let ds := t.take n
  if ds.length = n && ds.all Char.isDigit then some (Decimal.natOfDigits ds, t.drop n) else none

/-- The number of days of a month. -/
def daysOfMonth (year month : Nat) : Nat :=
  if month = 2 then
    if year % 4 = 0 && (year % 100 != 0 || year % 400 = 0) then 29 else 28
  else if month = 4 || month = 6 || month = 9 || month = 11 then 30
  else 31

/-- Reads one given character. -/
def takeChar (c : Char) : Text → Option Text
  | d :: t => if c = d then some t else none
  | [] => none

/-- What remains after a date of the calendar. -/
def afterDate (t : Text) : Option Text := do
  let (year, t) ← takeNumber 4 t
  let t ← takeChar '-' t
  let (month, t) ← takeNumber 2 t
  let t ← takeChar '-' t
  let (day, t) ← takeNumber 2 t
  if 1 ≤ month && month ≤ 12 && 1 ≤ day && day ≤ daysOfMonth year month then some t else none

/-- What remains after hours and minutes. -/
def afterHourMinute (t : Text) : Option Text := do
  let (hour, t) ← takeNumber 2 t
  let t ← takeChar ':' t
  let (minute, t) ← takeNumber 2 t
  if hour ≤ 23 && minute ≤ 59 then some t else none

/-- What remains after the fraction of a second, if there is one. -/
def afterFraction : Text → Option Text
  | '.' :: t =>
    let (digits, rest) := t.span Char.isDigit
    if digits.isEmpty then none else some rest
  | t => some t

/-- What remains after a time of day; the seconds may be missing. -/
def afterTime (t : Text) : Option Text := do
  let t ← afterHourMinute t
  match t with
  | ':' :: t =>
    let (second, t) ← takeNumber 2 t
    if second ≤ 60 then afterFraction t else none
  | t => some t

/-- A distance from universal time, or nothing. -/
def isOffset : Text → Bool
  | [] => true
  | [c] => c = 'Z' || c = 'z'
  | c :: t => (c = '+' || c = '-') && afterHourMinute t == some []

/-- A date, a time of day, or both. -/
def isDateTime (t : Text) : Bool :=
  match afterDate t with
  | some [] => true
  | some (c :: t) =>
    (c = 'T' || c = 't' || c = ' ') &&
      match afterTime t with
      | some t => isOffset t
      | none => false
  | none => afterTime t == some []

/-- Reads a value that is written without quotes or brackets. -/
def readScalar (t : Text) : Option Value :=
  if t = "true".toList then some (.boolean true)
  else if t = "false".toList then some (.boolean false)
  else
    match readInteger t with
    | some n => some (.integer n)
    | none =>
      match readFloat t with
      | some n => some (.float n)
      | none => if isDateTime t then some .dateTime else none

end ContentNegotiation.Toml
