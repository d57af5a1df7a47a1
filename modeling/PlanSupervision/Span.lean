/-!
Spans of time in nanoseconds, and instants as spans since the start of the clock. Neither has an
end: an instant that a clock cannot represent counts as any other, where a program that adds a span
near the largest one to an instant panics.
-/

namespace PlanSupervision

/-- A span of time in nanoseconds. -/
abbrev Span := Nat

namespace Span

def ofParts (seconds nanoseconds : Nat) : Span := seconds * 1000000000 + nanoseconds

def ofSeconds (seconds : Nat) : Span := seconds * 1000000000

def ofMillis (milliseconds : Nat) : Span := milliseconds * 1000000

def wholeSeconds (span : Span) : Nat := span / 1000000000

def wholeMillis (span : Span) : Nat := span / 1000000

def subsecond (span : Span) : Nat := span % 1000000000

def decimal (whole fraction places : Nat) : String :=
  let digits := Nat.toDigits 10 fraction
  let padded := List.replicate (places - digits.length) '0' ++ digits
  let kept := (padded.reverse.dropWhile (· = '0')).reverse
  toString whole ++ (if fraction = 0 then "" else "." ++ String.ofList kept)

/-- The exact text of a span in the largest unit that it fills. -/
def text (span : Span) : String :=
  if 1000000000 ≤ span then decimal (span / 1000000000) (span % 1000000000) 9 ++ "s"
  else if 1000000 ≤ span then decimal (span / 1000000) (span % 1000000) 6 ++ "ms"
  else if 1000 ≤ span then decimal (span / 1000) (span % 1000) 3 ++ "µs"
  else toString span ++ "ns"

end Span

end PlanSupervision
