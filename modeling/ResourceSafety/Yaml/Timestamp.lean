import ResourceSafety.Yaml.Number

/-!
# Dates and times

A date is a year of four digits, a month and a day.  A time may follow it: after
blanks without a zone, and after a `T` with one.  A plain scalar that is a date or
a time denotes a moment, not a text, though no field here holds moments.
-/

namespace ResourceSafety.Yaml

open Number (isDigit natural?)

/-- The parts of a text between the given character. -/
def splitAt (mark : Char) : List Char → List (List Char)
  | [] => [[]]
  | c :: cs =>
    if c == mark then [] :: splitAt mark cs
    else match splitAt mark cs with
      | [] => [[c]]
      | p :: ps => (c :: p) :: ps

/-- The number of days of a month. -/
def daysOf (year month : Nat) : Nat :=
  if month == 2 then
    if year % 4 == 0 && (year % 100 != 0 || year % 400 == 0) then 29 else 28
  else if [4, 6, 9, 11].contains month then 30
  else 31

/-- One or two digits as a number between two bounds. -/
def smallNumber? (lo hi : Nat) (cs : List Char) : Option Nat :=
  if cs.length = 1 || cs.length = 2 then
    (natural? 10 cs).filter fun n => lo ≤ n && n ≤ hi
  else none

/-- The time of a day: hour, minute and second, and perhaps a fraction. -/
def isClock (cs : List Char) : Bool :=
  match splitAt ':' cs with
  | [h, m, s] =>
    let whole := s.takeWhile isDigit
    let rest := s.drop whole.length
    (smallNumber? 0 23 h).isSome && (smallNumber? 0 59 m).isSome && (smallNumber? 0 59 whole).isSome &&
      match rest with
      | [] => true
      | c :: ds => (c == '.' || c == ',') && !ds.isEmpty && ds.all isDigit
  | _ => false

/-- The time of a day with its zone. -/
def isZonedClock (cs : List Char) : Bool :=
  match cs.reverse with
  | 'Z' :: back => isClock back.reverse
  | m :: n :: ':' :: h :: i :: sign :: back =>
    (sign == '+' || sign == '-') && (smallNumber? 0 24 [i, h]).isSome &&
      (smallNumber? 0 60 [n, m]).isSome && isClock back.reverse
  | _ => false

/-- A date, or a date and a time. -/
def isTimestamp (cs : List Char) : Bool :=
  let year := cs.takeWhile isDigit
  match cs.drop year.length with
  | '-' :: rest =>
    let month := rest.takeWhile isDigit
    match rest.drop month.length with
    | '-' :: rest =>
      let day := rest.takeWhile isDigit
      let valid := match natural? 10 year, smallNumber? 1 12 month with
        | some y, some m => year.length == 4 && (smallNumber? 1 (daysOf y m) day).isSome
        | _, _ => false
      valid && match rest.drop day.length with
        | [] => true
        | ' ' :: clock => isClock (clock.dropWhile (· == ' '))
        | c :: clock => (c == 'T' || c == 't') && isZonedClock clock
    | _ => false
  | _ => false

end ResourceSafety.Yaml
