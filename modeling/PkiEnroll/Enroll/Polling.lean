import PkiEnroll.Text.Duration
import PkiEnroll.Text.Quoted

namespace PkiEnroll.Enroll

/-- How long and how often a client asks again for a certificate that is not ready. -/
structure Polling where
  interval : Nat := 5000
  /-- A CA's wish to wait longer than this is cut down to it. -/
  maxInterval : Nat := 60000
  maxPolls : Nat := 10
  /-- All waits together. -/
  deadline : Option Nat := some 600000
  /-- How many of the units of time, in which an enrollment counts, make a second. -/
  resolution : Nat := 1000
  deriving DecidableEq, Repr

namespace Polling

/-- No time is as long: whole seconds have 64 bits. -/
def range (p : Polling) : Nat := p.resolution * 1 <<< 64

/-- The wait before the next poll when the CA names a number of seconds; it names none by one that
is not positive. -/
def waitFor (p : Polling) (checkAfter : Int) : Nat :=
  if checkAfter ≤ 0 then p.interval else min (p.resolution * checkAfter.toNat) p.maxInterval

def text (p : Polling) : String :=
  let duration (time : Nat) : String := Text.duration (time * 1000000000 / p.resolution)
  let deadline :=
    match p.deadline with
    | none => "None"
    | some d => "Some(" ++ duration d ++ ")"
  Text.described "PollingConfig"
    [("interval", duration p.interval), ("max_interval", duration p.maxInterval),
      ("max_polls", Nat.repr p.maxPolls), ("deadline", deadline)]

end Polling

end PkiEnroll.Enroll
