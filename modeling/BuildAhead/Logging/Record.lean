import BuildAhead.Settings.Basic

set_option autoImplicit false

/-!
# Logging: levels and records

How grave a record is, and which records a threshold lets through. A threshold is a level or, when
nothing may pass, none.
-/

namespace BuildAhead

/-- How grave a record is, the gravest first. -/
inductive LogLevel where
  | error
  | warn
  | info
  | debug
  | trace
  deriving DecidableEq, Repr, Inhabited

/-- The least grave level that passes; none when nothing does. -/
abbrev LogThreshold : Type := Option LogLevel

/-- What a part of the program says about its work. -/
structure LogRecord where
  level : LogLevel
  /-- the part of the program that says it -/
  target : String
  message : String
  deriving DecidableEq, Repr, Inhabited

namespace LogLevel

/-- Every level, the gravest first. -/
def all : List LogLevel := [.error, .warn, .info, .debug, .trace]

/-- The name of a level. -/
def name : LogLevel → String
  | .error => "error"
  | .warn => "warn"
  | .info => "info"
  | .debug => "debug"
  | .trace => "trace"

/-- The number of a level; a graver one has a smaller number. -/
def rank : LogLevel → Nat
  | .error => 1
  | .warn => 2
  | .info => 3
  | .debug => 4
  | .trace => 5

end LogLevel

namespace LogThreshold

/-- The number that a text writes in decimal digits, with or without a plus sign. -/
def number? (text : String) : Option Nat :=
  match text.toList with
  | '+' :: digits => Settings.digitsValue? digits
  | digits => Settings.digitsValue? digits

/-- The threshold that lets through the levels of at most this number; 0 means none of them. -/
def ofRank? : Nat → Option LogThreshold
  | 0 => some none
  | n => (LogLevel.all.find? fun l => l.rank == n).map some

/-- The threshold of a name, in any case. -/
def ofName? (name : String) : Option LogThreshold :=
  let lowered := Text.asciiLower name
  if lowered = "off" then some none
  else (LogLevel.all.find? fun l => l.name == lowered).map some

/-- The threshold that a text names: a level, `off`, or a number from 0 to 5. -/
def parse? (text : String) : Option LogThreshold :=
  match (number? text).bind ofRank? with
  | some t => some t
  | none => ofName? text

/-- Whether a level passes. -/
def admits (t : LogThreshold) (l : LogLevel) : Bool :=
  match t with
  | none => false
  | some least => l.rank ≤ least.rank

end LogThreshold

example : LogThreshold.parse? "Warn" = some (some .warn) := by decide +kernel
example : LogThreshold.parse? "+03" = some (some .info) := by decide +kernel
example : LogThreshold.parse? "6" = none ∧ LogThreshold.parse? "0" = some none := by decide +kernel

end BuildAhead
