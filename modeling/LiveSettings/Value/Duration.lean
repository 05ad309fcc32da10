/-!
# Spans of time

Seconds and nanoseconds, the latter less than a second.
-/

namespace LiveSettings

/-- A span of time. -/
structure Duration where
  seconds : UInt64
  nanos : Fin 1000000000
  deriving DecidableEq, Repr

namespace Duration

instance : Inhabited Duration := ⟨⟨0, 0⟩⟩

/-- A span from seconds and nanoseconds, which may make up further seconds; absent if it is too long. -/
def ofParts? (seconds nanos : Nat) : Option Duration :=
  let total := seconds + nanos / 1000000000
  if total < UInt64.size then
    some ⟨UInt64.ofNat total, ⟨nanos % 1000000000, Nat.mod_lt _ (by decide)⟩⟩
  else none

/-- A fraction with as many digits as are needed; `unit` is the value of one. -/
def fraction (nanos unit : Nat) : List Char :=
  if nanos == 0 then []
  else
    let width := (Nat.toDigits 10 unit).length - 1
    let ds := Nat.toDigits 10 nanos
    let all := List.replicate (width - ds.length) '0' ++ ds
    '.' :: (all.reverse.dropWhile (· == '0')).reverse

/-- The span in the largest unit of which it has one. -/
def display (d : Duration) : String :=
  let n := d.nanos.val
  let inUnit (unit : Nat) (name : String) : String :=
    String.ofList (Nat.toDigits 10 (n / unit) ++ fraction (n % unit) unit) ++ name
  if d.seconds != 0 then
    String.ofList (Nat.toDigits 10 d.seconds.toNat ++ fraction n 1000000000) ++ "s"
  else if 1000000 ≤ n then inUnit 1000000 "ms"
  else if 1000 ≤ n then inUnit 1000 "µs"
  else inUnit 1 "ns"

end Duration

end LiveSettings
