namespace ChainArchive.Time

def isLeap (year : Nat) : Bool :=
  year % 4 == 0 && (year % 100 != 0 || year % 400 == 0)

def daysInMonth (year month : Nat) : Nat :=
  match month with
  | 1 | 3 | 5 | 7 | 8 | 10 | 12 => 31
  | 4 | 6 | 9 | 11 => 30
  | 2 => if isLeap year then 29 else 28
  | _ => 0

def daysBeforeYear (year : Nat) : Nat :=
  let y := year - 1
  365 * y + y / 4 - y / 100 + y / 400

def daysBeforeMonth (year : Nat) : (month : Nat) → Nat
  | 0 => 0
  | m + 1 => daysBeforeMonth year m + daysInMonth year m

/-- The year in which a day falls: an estimate from below by the mean length of a year, moved up
while the next year has begun. -/
def yearOf (n : Nat) : Nat :=
  let estimate := n * 400 / 146097
  if daysBeforeYear (estimate + 2) ≤ n then estimate + 2
  else if daysBeforeYear (estimate + 1) ≤ n then estimate + 1
  else estimate

def monthFrom (year : Nat) : (fuel m dayOfYear : Nat) → Nat × Nat
  | 0, m, d => (m, d + 1)
  | fuel + 1, m, d =>
    if d < daysInMonth year m then (m, d + 1)
    else monthFrom year fuel (m + 1) (d - daysInMonth year m)

/-- The date of a day number, as year, month and day. -/
def dateOf (n : Nat) : Nat × Nat × Nat :=
  let y := yearOf n
  let (m, d) := monthFrom y 11 1 (n - daysBeforeYear y)
  (y, m, d)

def epochDay : Nat := 719162

end ChainArchive.Time
