import BuildAhead.Json.Printer
import BuildAhead.Logging.Setup

set_option autoImplicit false

/-!
# Logging: lines

How a record becomes a line: a time, the level, the target and the message, in colours where they are
wanted, or the same as a JSON object.
-/

namespace BuildAhead

/-- The name of a level as it stands in a line. -/
def LogLevel.label : LogLevel → String
  | .error => "ERROR"
  | .warn => "WARN"
  | .info => "INFO"
  | .debug => "DEBUG"
  | .trace => "TRACE"

/-- The colour of a level on a terminal. -/
def LogLevel.color : LogLevel → String
  | .error => "31"
  | .warn => "33"
  | .info => "32"
  | .debug => "34"
  | .trace => "35"

namespace LogRecord

/-- A text in a style of the terminal. -/
def styled (style text : String) : String := "\x1b[" ++ style ++ "m" ++ text ++ "\x1b[0m"

/-- The name of the level, the shorter ones behind a blank. -/
def paddedLabel (r : LogRecord) : String :=
  if r.level.label.length < 5 then " " ++ r.level.label else r.level.label

/-- The record as plain text. -/
def plain (time : String) (r : LogRecord) : String :=
  time ++ " " ++ r.paddedLabel ++ " " ++ r.target ++ ": " ++ r.message

/-- The record as text in colours. -/
def colored (time : String) (r : LogRecord) : String :=
  styled "2" time ++ " " ++ styled r.level.color r.paddedLabel ++ " " ++ styled "2" r.target ++
    styled "2" ":" ++ " " ++ r.message

/-- The record as a JSON value. -/
def toJson (time : String) (r : LogRecord) : Json :=
  .object
    [("timestamp", .text time), ("level", .text r.level.label),
      ("fields", .object [("message", .text r.message)]), ("target", .text r.target)]

end LogRecord

namespace Logger

/-- The line of a record. -/
def line (l : Logger) (time : String) (r : LogRecord) : String :=
  match l.format with
  | .json => (r.toJson time).compact ++ "\n"
  | .text => (if l.color then r.colored time else r.plain time) ++ "\n"

/-- The lines of those records that pass the filter. -/
def lines (l : Logger) (time : String) (rs : List LogRecord) : String :=
  String.join ((rs.filter l.filter.admits).map (l.line time))

end Logger

end BuildAhead
