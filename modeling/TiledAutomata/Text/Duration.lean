/-!
# Durations

A duration in microseconds is written with the largest unit below it: hours, minutes and
seconds together from one second on, otherwise milliseconds or microseconds.
-/

namespace TiledAutomata.Text.Duration

def quotient (n places : Nat) : String :=
  let unit := Nat.pow 10 places
  let digits := (toString (unit + n % unit)).toList.drop 1
  let shown := (digits.reverse.dropWhile (· == '0')).reverse
  toString (n / unit) ++ if shown.isEmpty then "" else "." ++ String.ofList shown

def text (micros : Nat) : String :=
  if micros = 0 then "0s"
  else if micros < 1000 then toString micros ++ "µs"
  else if micros < 1000000 then quotient micros 3 ++ "ms"
  else
    let minutes := micros / (60 * 1000000)
    (if 60 ≤ minutes then toString (minutes / 60) ++ "h" else "") ++
    (if 1 ≤ minutes then toString (minutes % 60) ++ "m" else "") ++
    quotient (micros % (60 * 1000000)) 6 ++ "s"

end TiledAutomata.Text.Duration
