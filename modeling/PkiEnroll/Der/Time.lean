import PkiEnroll.Der.Encoding

namespace PkiEnroll.Der

/-- A second of the Gregorian calendar. -/
structure DateTime where
  year : Nat
  month : Nat
  day : Nat
  hour : Nat
  minute : Nat
  second : Nat
  deriving DecidableEq, Repr

namespace DateTime

def isLeap (year : Nat) : Bool := year % 4 = 0 && (year % 100 ≠ 0 || year % 400 = 0)

def yearDays (year : Nat) : Nat := if isLeap year then 366 else 365

def monthLengths (year : Nat) : List Nat :=
  [31, if isLeap year then 29 else 28, 31, 30, 31, 30, 31, 31, 30, 31, 30, 31]

def monthDays (year month : Nat) : Nat := (monthLengths year).getD (month - 1) 0

/-- Leap seconds are not representable. -/
def isValid (t : DateTime) : Bool :=
  1970 ≤ t.year && t.year ≤ 9999 && 1 ≤ t.month && t.month ≤ 12 && 1 ≤ t.day &&
    t.day ≤ monthDays t.year t.month && t.hour < 24 && t.minute < 60 && t.second < 60

/-- The days from 1970 to the beginning of year `1970 + n`. -/
def daysToYear : Nat → Nat
  | 0 => 0
  | n + 1 => daysToYear n + yearDays (1970 + n)

def daysToMonth (year months : Nat) : Nat := ((monthLengths year).take months).foldl (· + ·) 0

def toUnix (t : DateTime) : Nat :=
  let days := daysToYear (t.year - 1970) + daysToMonth t.year (t.month - 1) + (t.day - 1)
  86400 * days + 3600 * t.hour + 60 * t.minute + t.second

/-- Finds a day among consecutive spans: the number of whole spans before it and the day in its own. -/
def locate : List Nat → Nat → Nat × Nat
  | [], day => (0, day)
  | span :: spans, day =>
    if day < span then (0, day)
    else
      let (n, rest) := locate spans (day - span)
      (n + 1, rest)

def maxUnix : Nat := 253402300799

def ofUnix (seconds : Nat) : DateTime :=
  let (years, day) := locate ((List.range 8030).map fun n => yearDays (1970 + n)) (seconds / 86400)
  let (months, day) := locate (monthLengths (1970 + years)) day
  let clock := seconds % 86400
  ⟨1970 + years, months + 1, day + 1, clock / 3600, clock / 60 % 60, clock % 60⟩

end DateTime

def decimal : Nat → Nat → Bytes
  | 0, _ => []
  | width + 1, n => decimal width (n / 10) ++ [UInt8.ofNat (48 + n % 10)]

def readDecimal (width : Nat) (b : Bytes) : Option (Nat × Bytes) := do
  let (digits, rest) ← Bytes.split? width b
  if digits.all fun c => 48 ≤ c && c ≤ 57 then
    some (digits.foldl (fun n c => 10 * n + (c.toNat - 48)) 0, rest)
  else none

namespace DateTime

/-- Month to second and the zone, as both time types write them. -/
def tailBytes (t : DateTime) : Bytes :=
  decimal 2 t.month ++ decimal 2 t.day ++ decimal 2 t.hour ++ decimal 2 t.minute ++
    decimal 2 t.second ++ [90]

def readTail (year : Nat) (b : Bytes) : Option DateTime := do
  let (month, b) ← readDecimal 2 b
  let (day, b) ← readDecimal 2 b
  let (hour, b) ← readDecimal 2 b
  let (minute, b) ← readDecimal 2 b
  let (second, b) ← readDecimal 2 b
  let t : DateTime := ⟨year, month, day, hour, minute, second⟩
  if b = [90] ∧ t.isValid then some t else none

end DateTime

/-- Years 50 to 99 are of the twentieth century. -/
structure UtcTime where
  time : DateTime
  deriving DecidableEq, Repr

instance : Content UtcTime where
  tag := .universal .utcTime
  content t := decimal 2 (t.time.year % 100) ++ t.time.tailBytes
  ofContent? b := do
    let (year, rest) ← readDecimal 2 b
    UtcTime.mk <$> DateTime.readTail (if 50 ≤ year then 1900 + year else 2000 + year) rest

structure GeneralizedTime where
  time : DateTime
  deriving DecidableEq, Repr

instance : Content GeneralizedTime where
  tag := .universal .generalizedTime
  content t := decimal 4 t.time.year ++ t.time.tailBytes
  ofContent? b := do
    let (year, rest) ← readDecimal 4 b
    GeneralizedTime.mk <$> DateTime.readTail year rest

/-- A point in time to the nanosecond, as a clock gives it: nanoseconds since the beginning of 1970. -/
structure Instant where
  nanoseconds : Int
  deriving DecidableEq, Repr

namespace Instant

def ofSeconds (seconds : Int) (nanoseconds : Nat) : Instant := ⟨1000000000 * seconds + nanoseconds⟩

/-- The second in which an instant lies, when it is not before 1970 nor after the beginning of the
last second of 9999. -/
def toDateTime? (t : Instant) : Option DateTime :=
  if 0 ≤ t.nanoseconds ∧ t.nanoseconds ≤ 1000000000 * DateTime.maxUnix then
    some (DateTime.ofUnix (t.nanoseconds.toNat / 1000000000))
  else none

end Instant

inductive Time where
  | utc (time : UtcTime)
  | general (time : GeneralizedTime)
  deriving DecidableEq, Repr

namespace Time

def dateTime : Time → DateTime
  | utc t => t.time
  | general t => t.time

/-- UTCTime up to the end of 2049 and GeneralizedTime after it. -/
def ofDateTime (t : DateTime) : Time := if t.year ≤ 2049 then utc ⟨t⟩ else general ⟨t⟩

end Time

instance : Encoding Time where
  accepts t := t = .universal .utcTime || t = .universal .generalizedTime
  toElement
    | .utc t => Encoding.toElement t
    | .general t => Encoding.toElement t
  ofElement? e :=
    if e.tag = .universal .utcTime then Time.utc <$> Encoding.ofElement? e
    else Time.general <$> Encoding.ofElement? e

end PkiEnroll.Der
