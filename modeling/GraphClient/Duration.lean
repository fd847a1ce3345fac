/-!
# Spans of time

A `Duration` is a number of seconds and of nanoseconds below one second. People write it as a list of
numbers with units: `1h 30m`, `2days`, `1.5h`. A month is 30.44 days and a year 365.25 days.

Reading adds up the parts in the range of 64-bit seconds and fails beyond it. Writing takes as many
years, then months, days, hours, minutes, seconds and fractions of a second as fit, and names only
those that occur; the largest three units are spelled out, in the plural beyond one.
-/

namespace GraphClient

/-- A span of time in whole seconds and nanoseconds below one second. -/
structure Duration where
  seconds : Nat
  nanoseconds : Nat := 0
deriving DecidableEq, Repr

namespace Duration

def zero : Duration := ⟨0, 0⟩

def isZero (d : Duration) : Bool := d.seconds == 0 && d.nanoseconds == 0

def milliseconds (d : Duration) : Nat := d.seconds * 1000 + d.nanoseconds / 1000000

inductive TimeUnit where
  | nanosecond
  | microsecond
  | millisecond
  | second
  | minute
  | hour
  | day
  | week
  | month
  | year
deriving DecidableEq, Repr

namespace TimeUnit

def ofName? (name : String) : Option TimeUnit :=
  if name ∈ ["nanos", "nsec", "ns"] then some nanosecond
  else if name ∈ ["usec", "us", "µs"] then some microsecond
  else if name ∈ ["millis", "msec", "ms"] then some millisecond
  else if name ∈ ["seconds", "second", "secs", "sec", "s"] then some second
  else if name ∈ ["minutes", "minute", "mins", "min", "m"] then some minute
  else if name ∈ ["hours", "hour", "hrs", "hr", "h"] then some hour
  else if name ∈ ["days", "day", "d"] then some day
  else if name ∈ ["weeks", "week", "wks", "wk", "w"] then some week
  else if name ∈ ["months", "month", "M"] then some month
  else if name ∈ ["years", "year", "yrs", "yr", "y"] then some year
  else none

/-- How many seconds a unit of at least a second has. -/
def seconds : TimeUnit → Nat
  | nanosecond | microsecond | millisecond => 0
  | second => 1
  | minute => 60
  | hour => 3600
  | day => 86400
  | week => 604800
  | month => 2630016
  | year => 31557600

def nanoseconds : TimeUnit → Nat
  | nanosecond => 1
  | microsecond => 1000
  | millisecond => 1000000
  | _ => 0

/-- The unit in which the fractional part of a number is counted: nanoseconds up to minutes, whole
seconds for longer units. -/
def fractionScale : TimeUnit → Nat × Nat
  | second => (0, 1000000000)
  | minute => (0, 60000000000)
  | u => (u.seconds, u.nanoseconds)

end TimeUnit

/-- The bound of the numbers that are computed with. -/
def limit : Nat := Nat.pow 2 64

def bounded? (n : Nat) : Option Nat := if n < limit then some n else none

/-- Adds seconds and nanoseconds; more than a second of nanoseconds is carried over. -/
def add? (d : Duration) (seconds nanoseconds : Nat) : Option Duration := do
  let nanos ← bounded? (d.nanoseconds + nanoseconds)
  let total ← bounded? (d.seconds + seconds + nanos / 1000000000)
  pure ⟨total, nanos % 1000000000⟩

/-- A number with a fractional part `numerator / denominator`. -/
structure Quantity where
  whole : Nat
  fraction : Option (Nat × Nat) := none

def addQuantity? (d : Duration) (q : Quantity) (u : TimeUnit) : Option Duration := do
  let seconds ← bounded? (q.whole * u.seconds)
  let nanos ← bounded? (q.whole * u.nanoseconds)
  let d ← d.add? seconds nanos
  match q.fraction with
  | none => pure d
  | some (numerator, denominator) => do
    let (perSecond, perNano) := u.fractionScale
    let seconds ← bounded? (numerator * perSecond)
    let nanos ← bounded? (numerator * perNano)
    d.add? (seconds / denominator) (nanos / denominator)

def isBlank (c : Char) : Bool :=
  c.isWhitespace || c = '\x0b' || c = '\x0c' || c.toNat = 0x85 || c.toNat = 0xA0 ||
    c.toNat = 0x1680 || (0x2000 ≤ c.toNat && c.toNat ≤ 0x200A) || c.toNat = 0x2028 ||
    c.toNat = 0x2029 || c.toNat = 0x202F || c.toNat = 0x205F || c.toNat = 0x3000

def isUnitChar (c : Char) : Bool := c.isAlpha || c = 'µ'

def digitValue (c : Char) : Nat := c.toNat - 48

/-- Further digits of a whole number, blanks between them skipped. -/
def wholeDigits (n : Nat) : List Char → Option (Nat × List Char)
  | [] => some (n, [])
  | c :: cs =>
    if c.isDigit then (bounded? (n * 10 + digitValue c)).bind fun n => wholeDigits n cs
    else if isBlank c then wholeDigits n cs
    else some (n, c :: cs)

/-- The digits after a point as a fraction, blanks between them skipped; at least one digit and only
a unit may follow. -/
def fractionDigits (numerator denominator : Nat) :
    List Char → Option ((Nat × Nat) × List Char)
  | [] => if denominator = 1 then none else some ((numerator, denominator), [])
  | c :: cs =>
    if c.isDigit then do
      let denominator ← bounded? (denominator * 10)
      let numerator ← bounded? (numerator * 10 + digitValue c)
      fractionDigits numerator denominator cs
    else if isBlank c then fractionDigits numerator denominator cs
    else if isUnitChar c ∧ denominator ≠ 1 then some ((numerator, denominator), c :: cs)
    else none

/-- The number at the front of which `n` is the first digit. -/
def quantity (n : Nat) (cs : List Char) : Option (Quantity × List Char) := do
  let (whole, cs) ← wholeDigits n cs
  match cs with
  | '.' :: cs => do
    let (fraction, cs) ← fractionDigits 0 1 cs
    pure (⟨whole, some fraction⟩, cs)
  | cs => pure (⟨whole, none⟩, cs)

/-- The parts of a written duration, each begun at a digit; at most as many as `fuel`. -/
def addParts (d : Duration) : (fuel : Nat) → List Char → Option Duration
  | 0, _ => none
  | fuel + 1, cs =>
    match cs.dropWhile isBlank with
    | [] => some d
    | c :: cs =>
      if c.isDigit then do
        let (q, cs) ← quantity (digitValue c) cs
        let u ← TimeUnit.ofName? (String.ofList (cs.takeWhile isUnitChar))
        let d ← d.addQuantity? q u
        match cs.dropWhile isUnitChar with
        | [] => pure d
        | c :: cs => if c.isDigit ∨ isBlank c then addParts d fuel (c :: cs) else none
      else none

/-- The duration that a text writes; a zero may stand alone. -/
def parse? (text : String) : Option Duration :=
  let cs := text.toList
  if cs = ['0'] then some zero
  else if (cs.dropWhile isBlank).isEmpty then none
  else addParts zero (cs.length + 1) cs

/-- A number with a unit that is spelled out, none if it is zero. -/
def spelledOut (name : String) (n : Nat) : List String :=
  if n = 0 then []
  else [String.ofList (Nat.toDigits 10 n) ++ name ++ if n = 1 then "" else "s"]

/-- A number with the sign of a unit, none if it is zero. -/
def abbreviated (sign : String) (n : Nat) : List String :=
  if n = 0 then [] else [String.ofList (Nat.toDigits 10 n) ++ sign]

def render (d : Duration) : String :=
  if d.isZero then "0s"
  else
    let years := d.seconds / 31557600
    let inYear := d.seconds % 31557600
    let months := inYear / 2630016
    let inMonth := inYear % 2630016
    let inDay := inMonth % 86400
    " ".intercalate <|
      spelledOut "year" years ++ spelledOut "month" months ++ spelledOut "day" (inMonth / 86400) ++
      abbreviated "h" (inDay / 3600) ++ abbreviated "m" (inDay % 3600 / 60) ++
      abbreviated "s" (inDay % 60) ++ abbreviated "ms" (d.nanoseconds / 1000000) ++
      abbreviated "us" (d.nanoseconds / 1000 % 1000) ++ abbreviated "ns" (d.nanoseconds % 1000)

end Duration

end GraphClient
