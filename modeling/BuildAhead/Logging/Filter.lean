import BuildAhead.Logging.Directive

set_option autoImplicit false

/-!
# Logging: filters

A filter is a list of directives, of which the most specific one decides about a record: the one with
the longest target that the record's target begins with. A record that no directive covers is
dropped.
-/

namespace BuildAhead

/-- Directives, at most one for each combination of target, span and fields. -/
structure LogFilter where
  directives : List LogDirective := []
  deriving DecidableEq, Repr, Inhabited

namespace LogFilter

/-- The filter with a directive, in place of one for the same target, span and fields. -/
def add (f : LogFilter) (d : LogDirective) : LogFilter :=
  ⟨(f.directives.filter fun o =>
    !(o.target == d.target && o.span == d.span && o.fields == d.fields)) ++ [d]⟩

/-- The filter of these directives; of two for the same target the later counts. -/
def ofDirectives (ds : List LogDirective) : LogFilter := ds.foldl add {}

/-- The parts of a filter's text, each a directive. -/
def parts (text : String) : List String := Text.words (· == ',') text

/-- The filter that a text writes, if each of its parts is a directive. -/
def parse? (text : String) : Option LogFilter :=
  ((parts text).mapM fun part => (LogDirective.parse part).toOption).map ofDirectives

/-- The parts of a text that are no directives, each with the reason. -/
def faults (text : String) : List (String × DirectiveFault) :=
  (parts text).filterMap fun part =>
    match LogDirective.parse part with
    | .ok _ => none
    | .error fault => some (part, fault)

/-- The filter of those parts of a text that are directives; only errors pass if there is none. -/
def ofText (text : String) : LogFilter :=
  match (parts text).filterMap fun part => (LogDirective.parse part).toOption with
  | [] => ⟨[{ threshold := some .error }]⟩
  | ds => ofDirectives ds

/-- The more specific of a directive and what was found before. -/
def sharper (found : Option LogDirective) (d : LogDirective) : Option LogDirective :=
  match found with
  | none => some d
  | some o => if o.weight < d.weight then some d else some o

/-- The directive that decides about the records of a target. -/
def decisive? (f : LogFilter) (target : String) : Option LogDirective :=
  (f.directives.filter fun d => d.covers target).foldl sharper none

/-- Whether a record passes. -/
def admits (f : LogFilter) (r : LogRecord) : Bool :=
  match f.decisive? r.target with
  | some d => d.threshold.admits r.level
  | none => false

example :
    ((parse? "warn,a=info").map fun f => (f.admits ⟨.info, "a::b", ""⟩, f.admits ⟨.info, "b", ""⟩))
      = some (true, false) := by
  decide +kernel

end LogFilter

end BuildAhead
