import BuildScript.Text.Basic
/-!
# Moments of YAML

A plain scalar may stand for a date, or for a date with a time of day and an offset from universal
time. A date alone is written with two digits for month and day; in front of a time one will do.

**Existence.** Not every moment that can be written exists. `Moment.check` says what is wrong
first: the offset, then the date, then the time.
-/
namespace BuildScript.Yaml

/-- A time of day, with an offset in minutes if there is one. -/
structure TimeOfDay where
  hour : Nat
  minute : Nat
  second : Nat
  offset : Option Int
deriving DecidableEq, Repr

/-- A date, or a date with a time of day. -/
structure Moment where
  year : Nat
  month : Nat
  day : Nat
  time : Option TimeOfDay
deriving DecidableEq, Repr

inductive MomentFault where
  | year (value : Nat)
  | month
  | day
  | hour
  | minute
  | second
  | offset (minutes : Int)
deriving DecidableEq, Repr

namespace MomentFault

/-- A length of time in minutes, written in days and seconds. -/
def span (minutes : Int) : Text :=
  let days := minutes.fdiv 1440
  let seconds := minutes.fmod 1440 * 60
  let part (name : Text) (n : Int) := if n = 0 then [] else [name ++ '=' :: Text.ofInt n]
  "datetime.timedelta(".toList ++
    Text.joinWith ", ".toList (part "days".toList days ++ part "seconds".toList seconds) ++ [')']

def message : MomentFault → Text
  | year value => "year ".toList ++ Text.ofNat value ++ " is out of range".toList
  | month => "month must be in 1..12".toList
  | day => "day is out of range for month".toList
  | hour => "hour must be in 0..23".toList
  | minute => "minute must be in 0..59".toList
  | second => "second must be in 0..59".toList
  | offset minutes =>
    "offset must be a timedelta strictly between -timedelta(hours=24) and ".toList ++
      "timedelta(hours=24), not ".toList ++ span minutes ++ ['.']

end MomentFault

namespace Moment

def digit? (c : Char) : Option Nat := if '0' ≤ c ∧ c ≤ '9' then some (c.toNat - 48) else none

def readTwo? : Text → Option (Nat × Text)
  | c :: d :: s => do return (10 * (← digit? c) + (← digit? d), s)
  | _ => none

def readOneOrTwo? (s : Text) : Option (Nat × Text) :=
  match readTwo? s, s with
  | some found, _ => some found
  | none, c :: rest => (digit? c).map fun n => (n, rest)
  | none, [] => none

/-- Reads the year and the hyphen behind it. -/
def readYear? (s : Text) : Option (Nat × Text) := do
  let (century, s) ← readTwo? s
  let (year, s) ← readTwo? s
  return (100 * century + year, ← Text.after? ['-'] s)

def skipSpaces (s : Text) : Text := s.dropWhile fun c => c == ' ' || c == '\t'

/-- Reads what stands between a date and a time: a letter, or spaces. -/
def readGap? : Text → Option Text
  | c :: s =>
    if c = 'T' ∨ c = 't' then some s
    else if c = ' ' ∨ c = '\t' then some (skipSpaces s)
    else none
  | [] => none

def skipFraction : Text → Text
  | '.' :: s => s.dropWhile fun c => (digit? c).isSome
  | s => s

/-- Reads the offset at the end of a moment, if there is one. -/
def readOffset? (s : Text) : Option (Option Int) :=
  match s, skipSpaces s with
  | [], _ => some none
  | _, ['Z'] => some none
  | _, sign :: s => do
    if sign ≠ '+' ∧ sign ≠ '-' then none
    let (hours, s) ← readOneOrTwo? s
    let minutes ←
      match s with
      | [] => some 0
      | ':' :: s => (readTwo? s).bind fun (minutes, s) => if s = [] then some minutes else none
      | _ => none
    let total : Int := ↑(60 * hours + minutes)
    return some (if sign = '-' then -total else total)
  | _, [] => none

def readDate? (s : Text) : Option Moment := do
  let (year, s) ← readYear? s
  let (month, s) ← readTwo? s
  let (day, s) ← readTwo? (← Text.after? ['-'] s)
  if s = [] then return ⟨year, month, day, none⟩ else none

def readDateTime? (s : Text) : Option Moment := do
  let (year, s) ← readYear? s
  let (month, s) ← readOneOrTwo? s
  let (day, s) ← readOneOrTwo? (← Text.after? ['-'] s)
  let (hour, s) ← readOneOrTwo? (← readGap? s)
  let (minute, s) ← readTwo? (← Text.after? [':'] s)
  let (second, s) ← readTwo? (← Text.after? [':'] s)
  return ⟨year, month, day, some ⟨hour, minute, second, ← readOffset? (skipFraction s)⟩⟩

def read? (s : Text) : Option Moment := (readDate? s).or (readDateTime? s)

def isLeap (year : Nat) : Bool := year % 4 = 0 && (year % 100 != 0 || year % 400 = 0)

def daysIn (year month : Nat) : Nat :=
  if month = 2 then (if isLeap year then 29 else 28)
  else if month ∈ [4, 6, 9, 11] then 30
  else 31

def checkDate (m : Moment) : Except MomentFault Unit :=
  if m.year = 0 then .error (.year m.year)
  else if m.month = 0 ∨ 12 < m.month then .error .month
  else if m.day = 0 ∨ daysIn m.year m.month < m.day then .error .day
  else .ok ()

def checkTime (time : TimeOfDay) : Except MomentFault Unit :=
  if 23 < time.hour then .error .hour
  else if 59 < time.minute then .error .minute
  else if 59 < time.second then .error .second
  else .ok ()

def checkOffset (time : TimeOfDay) : Except MomentFault Unit :=
  match time.offset with
  | some offset => if 1440 ≤ offset.natAbs then .error (.offset offset) else .ok ()
  | none => .ok ()

/-- What is wrong with a moment first, if anything is. -/
def check (m : Moment) : Except MomentFault Unit :=
  match m.time with
  | none => checkDate m
  | some time => do
    checkOffset time
    checkDate m
    checkTime time

end Moment

end BuildScript.Yaml
