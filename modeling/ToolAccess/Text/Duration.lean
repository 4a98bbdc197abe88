/-!
# Lengths of time

A length of time in whole milliseconds is shown in the largest unit that does not make it less
than one: in seconds from one second on, with the fraction of a second in as few digits as it
needs, and else in milliseconds. No time at all is shown in nanoseconds.
-/

namespace ToolAccess.Text

/-- The three digits of a number of thousandths, without the zeros at their end. -/
def thousandths (n : Nat) : List Char :=
  let ds := [n / 100, n / 10 % 10, n % 10].map Nat.digitChar
  (ds.reverse.dropWhile (· == '0')).reverse

/-- A number of milliseconds as it is shown. -/
def duration (milliseconds : Nat) : String :=
  if milliseconds = 0 then "0ns"
  else if milliseconds < 1000 then s!"{milliseconds}ms"
  else
    let seconds := toString (milliseconds / 1000)
    match thousandths (milliseconds % 1000) with
    | [] => seconds ++ "s"
    | ds => seconds ++ "." ++ String.ofList ds ++ "s"

end ToolAccess.Text
