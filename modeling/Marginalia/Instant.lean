import Marginalia.Decimal.Digits
import Marginalia.Text.Blank

/-!
# Points in time

A point in time is a count of seconds since the start of 1970 in universal time and a fraction in
nanoseconds. During a leap second the fraction runs on past a whole second. Two text formats are
read: the strict interchange format, and a relaxed one that stored files may hold.
-/

namespace Marginalia

/-- A point in time. -/
structure Instant where
  second : Int
  nano : Nat
  deriving DecidableEq, Repr, Inhabited

/-- A day of the calendar. -/
structure CivilDate where
  year : Int
  month : Nat
  day : Nat
  deriving DecidableEq, Repr

namespace CivilDate

def isLeapYear (year : Int) : Bool :=
  year % 4 == 0 && (year % 100 != 0 || year % 400 == 0)

def daysInMonth (year : Int) (month : Nat) : Nat :=
  if month = 2 then (if isLeapYear year then 29 else 28)
  else if month = 4 ∨ month = 6 ∨ month = 9 ∨ month = 11 then 30
  else 31

/-- Whether the calendar has the day. -/
def isValid (d : CivilDate) : Bool :=
  1 ≤ d.month && d.month ≤ 12 && 1 ≤ d.day && d.day ≤ daysInMonth d.year d.month

/-- The days from the start of 1970; years are counted from March, so that a leap day comes last. -/
def toDays (d : CivilDate) : Int :=
  let year := if d.month ≤ 2 then d.year - 1 else d.year
  let era := year.fdiv 400
  let yearOfEra := year - era * 400
  let monthFromMarch : Int := (d.month + 9) % 12
  let dayOfYear := (153 * monthFromMarch + 2) / 5 + d.day - 1
  era * 146097 + yearOfEra * 365 + yearOfEra / 4 - yearOfEra / 100 + dayOfYear - 719468

def ofDays (days : Int) : CivilDate :=
  let shifted := days + 719468
  let era := shifted.fdiv 146097
  let dayOfEra := shifted - era * 146097
  let yearOfEra := (dayOfEra - dayOfEra / 1460 + dayOfEra / 36524 - dayOfEra / 146096) / 365
  let dayOfYear := dayOfEra - (365 * yearOfEra + yearOfEra / 4 - yearOfEra / 100)
  let monthFromMarch := (5 * dayOfYear + 2) / 153
  let day := dayOfYear - (153 * monthFromMarch + 2) / 5 + 1
  let month := if monthFromMarch < 10 then monthFromMarch + 3 else monthFromMarch - 9
  ⟨yearOfEra + era * 400 + (if month ≤ 2 then 1 else 0), month.toNat, day.toNat⟩

end CivilDate

namespace Instant

def le (a b : Instant) : Bool :=
  a.second < b.second || (a.second == b.second && a.nano ≤ b.nano)

def lt (a b : Instant) : Bool :=
  a.second < b.second || (a.second == b.second && a.nano < b.nano)

def toNanos (a : Instant) : Int :=
  a.second * 1000000000 + a.nano

def ofNanos (n : Int) : Instant :=
  ⟨n.fdiv 1000000000, (n.fmod 1000000000).toNat⟩

def daySecond (a : Instant) : Int := a.second.fmod 86400

/-- The nanoseconds from an instant to a later one. A leap second counts for an instant in it, and
between two instants when the earlier one lies in it and has the lesser second of the day. -/
def since (later earlier : Instant) : Int :=
  let adjust : Int :=
    if earlier.daySecond < later.daySecond ∧ 1000000000 ≤ earlier.nano then 1
    else if later.daySecond < earlier.daySecond ∧ 1000000000 ≤ later.nano then -1
    else 0
  later.toNanos - earlier.toNanos + adjust * 1000000000

/-- The instant a number of nanoseconds later. A leap second is left as if it were the second
before it. -/
def advance (a : Instant) (nanos : Int) : Instant :=
  let moved := a.nano + nanos
  if a.nano < 1000000000 then ofNanos (a.toNanos + nanos)
  else if nanos < 1000000000 ∧ -1000000000 < nanos ∧ moved < 2000000000 then
    if 1000000000 ≤ moved then ⟨a.second, moved.toNat⟩ else ofNanos (a.toNanos + nanos)
  else if 0 < nanos then ofNanos (a.toNanos + nanos - 1000000000)
  else ofNanos (a.toNanos + nanos)

/-- The instant of a day, a time of day and an offset from universal time in seconds. A sixtieth
second is a leap second. -/
def ofParts? (date : CivilDate) (hour minute second nano : Nat) (offset : Int) :
    Option Instant :=
  if !date.isValid || 24 ≤ hour || 60 ≤ minute || 61 ≤ second then none
  else
    let leap := second == 60
    let second := if leap then 59 else second
    let sinceMidnight : Int := hour * 3600 + minute * 60 + second
    some ⟨date.toDays * 86400 + sinceMidnight - offset, if leap then nano + 1000000000 else nano⟩

/-! ## Writing -/

/-- How universal time is marked. -/
inductive ZoneMark where
  | zulu
  | numeric

def ZoneMark.text : ZoneMark → List Char
  | .zulu => ['Z']
  | .numeric => "+00:00".toList

/-- A year has four digits; one that needs a sign has five characters at least. -/
def yearText (year : Int) : List Char :=
  if 0 ≤ year ∧ year ≤ 9999 then Decimal.paddedDigits 4 year.toNat
  else
    let ds := Decimal.digits year.natAbs
    (if year < 0 then '-' else '+') :: List.replicate (4 - ds.length) '0' ++ ds

/-- A fraction has as many groups of three digits as it needs. -/
def fractionText (nano : Nat) : List Char :=
  if nano = 0 then []
  else if nano % 1000000 = 0 then '.' :: Decimal.paddedDigits 3 (nano / 1000000)
  else if nano % 1000 = 0 then '.' :: Decimal.paddedDigits 6 (nano / 1000)
  else '.' :: Decimal.paddedDigits 9 nano

def text (mark : ZoneMark) (t : Instant) : String :=
  let days := t.second.fdiv 86400
  let sinceMidnight := (t.second.fmod 86400).toNat
  let date := CivilDate.ofDays days
  let leap := 1000000000 ≤ t.nano
  let second := sinceMidnight % 60 + if leap then 1 else 0
  let nano := if leap then t.nano - 1000000000 else t.nano
  String.ofList (
    yearText date.year ++ '-' :: Decimal.paddedDigits 2 date.month ++
    '-' :: Decimal.paddedDigits 2 date.day ++
    'T' :: Decimal.paddedDigits 2 (sinceMidnight / 3600) ++
    ':' :: Decimal.paddedDigits 2 (sinceMidnight / 60 % 60) ++
    ':' :: Decimal.paddedDigits 2 second ++ fractionText nano ++ mark.text)

/-! ## Reading -/

/-- The number of between `least` and `most` leading digits, and what follows them. -/
def number? (least : Nat) (most : Option Nat) (s : List Char) : Option (Nat × List Char) :=
  let run := s.takeWhile Char.isDigit
  let ds := match most with
    | some most => run.take most
    | none => run
  if ds.length < least then none
  else (Decimal.ofDigits? ds).map fun n ↦ (n, s.drop ds.length)

/-- What follows a character that has to come next. -/
def expect? (c : Char) : List Char → Option (List Char)
  | d :: rest => if c = d then some rest else none
  | [] => none

/-- A fraction of a second, if a point comes next; digits beyond the ninth are dropped. -/
def fraction? : List Char → Option (Nat × List Char)
  | '.' :: rest => do
    let ds := rest.takeWhile Char.isDigit
    let n ← Decimal.ofDigits? (ds.take 9)
    return (n * Nat.pow 10 (9 - (ds.take 9).length), rest.drop ds.length)
  | s => some (0, s)

/-- The hours and minutes of an offset in seconds; `colon` reads what stands between them. -/
def offsetDigits? (colon : List Char → Option (List Char)) (s : List Char) :
    Option (Int × List Char) := do
  let (hours, s) ← number? 2 (some 2) s
  let s ← colon s
  let (minutes, s) ← number? 2 (some 2) s
  if 60 ≤ minutes then none
  else some (hours * 3600 + minutes * 60, s)

/-- An offset from universal time in seconds. -/
def offset? (colon : List Char → Option (List Char)) : List Char → Option (Int × List Char)
  | [] => none
  | c :: rest =>
    if c = 'Z' ∨ c = 'z' then some (0, rest)
    else if c = '+' then offsetDigits? colon rest
    else if c = '-' ∨ c.toNat = 0x2212 then
      (offsetDigits? colon rest).map fun (offset, rest) ↦ (-offset, rest)
    else none

/-- Whether a character may stand between day and time. -/
def separatesTime (c : Char) : Bool :=
  c == 'T' || c == 't' || c == ' '

/-- Read the strict interchange format. -/
def parse? (text : String) : Option Instant := do
  let (year, s) ← number? 4 (some 4) text.toList
  let s ← expect? '-' s
  let (month, s) ← number? 2 (some 2) s
  let s ← expect? '-' s
  let (day, s) ← number? 2 (some 2) s
  let (c, s) ← match s with
    | [] => none
    | c :: s => some (c, s)
  if !separatesTime c then none
  let (hour, s) ← number? 2 (some 2) s
  let s ← expect? ':' s
  let (minute, s) ← number? 2 (some 2) s
  let s ← expect? ':' s
  let (second, s) ← number? 2 (some 2) s
  let (nano, s) ← fraction? s
  let (offset, s) ← offset? (expect? ':') s
  if !s.isEmpty ∨ 86400 ≤ offset.natAbs then none
  ofParts? ⟨year, month, day⟩ hour minute second nano offset

/-- A year with an optional sign; without one it has at most four digits. -/
def relaxedYear? (s : List Char) : Option (Int × List Char) :=
  match Text.trimStart s with
  | '-' :: rest => (number? 1 none rest).map fun (n, rest) ↦ (-(n : Int), rest)
  | '+' :: rest => (number? 1 none rest).map fun (n, rest) ↦ ((n : Int), rest)
  | rest => (number? 1 (some 4) rest).map fun (n, rest) ↦ ((n : Int), rest)

/-- One or two digits after blanks. -/
def relaxedPair? (s : List Char) : Option (Nat × List Char) :=
  number? 1 (some 2) (Text.trimStart s)

def skipColons (s : List Char) : List Char :=
  s.dropWhile fun c ↦ c == ':' || Text.isBlank c

/-- Read the relaxed format: blanks between the parts, single digits, any separator in the
offset, and `UTC` for universal time. -/
def parseRelaxed? (text : String) : Option Instant := do
  let (year, s) ← relaxedYear? text.toList
  let s ← expect? '-' (Text.trimStart s)
  let (month, s) ← relaxedPair? s
  let s ← expect? '-' (Text.trimStart s)
  let (day, s) ← relaxedPair? s
  let (c, s) ← match s with
    | [] => none
    | c :: s => some (c, s)
  if !separatesTime c then none
  let (hour, s) ← relaxedPair? s
  let s ← expect? ':' (Text.trimStart s)
  let (minute, s) ← relaxedPair? s
  let s ← expect? ':' (Text.trimStart s)
  let (second, s) ← relaxedPair? s
  let (nano, s) ← fraction? s
  let s := Text.trimStart s
  let (offset, s) ←
    if (s.take 3).map Text.lowerAscii == ['u', 't', 'c'] then some (0, s.drop 3)
    else offset? (fun s ↦ some (skipColons s)) s
  if !(Text.trimStart s).isEmpty ∨ 86400 ≤ offset.natAbs then none
  ofParts? ⟨year, month, day⟩ hour minute second nano offset

end Instant

end Marginalia
