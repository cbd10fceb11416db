import BuildAhead.Text.Quoted

set_option autoImplicit false

/-!
# Toml: quoted strings

How a text is written as a string of the TOML format. Of the four kinds of strings the plainest is
taken in which the text needs no escapes: between double quotes, between single quotes, between
three double quotes, between three single quotes. A text that needs escapes in all of them is
written between double quotes, three of them when it has several lines.
-/

namespace BuildAhead.Toml

/-- The length of the longest run of `c` in a text, where `run` counts a run that is going on. -/
def longestRun (c : Char) (run : Nat) : List Char → Nat
  | [] => run
  | d :: rest => if d = c then longestRun c (run + 1) rest else max run (longestRun c 0 rest)

/-- A control character that is neither a tab nor a line feed. -/
def isControl (c : Char) : Bool :=
  (c.toNat < 0x20 && c != '\t' && c != '\n') || c.toNat == 0x7F

/-- One character inside double quotes, as an escape when it needs one. -/
def escape (c : Char) : List Char :=
  match c with
  | '\x08' => ['\\', 'b']
  | '\t' => ['\\', 't']
  | '\n' => ['\\', 'n']
  | '\x0C' => ['\\', 'f']
  | '\r' => ['\\', 'r']
  | '"' => ['\\', '"']
  | '\\' => ['\\', '\\']
  | c =>
    if isControl c then
      ['\\', 'u', '0', '0', Char.toUpper (Text.hexDigit (c.toNat / 16)),
        Char.toUpper (Text.hexDigit (c.toNat % 16))]
    else [c]

/-- The inside of a string between three double quotes, where `run` counts the double quotes just
before; the third in a row is escaped, and line feeds are kept. -/
def multilineBody (run : Nat) : List Char → List Char
  | [] => []
  | c :: rest =>
    if c = '"' then
      if run < 2 then c :: multilineBody (run + 1) rest
      else ['\\', '"'] ++ multilineBody 0 rest
    else if c = '\n' then c :: multilineBody 0 rest
    else escape c ++ multilineBody 0 rest

/-- A line feed in front of a text of several lines. -/
def lineStart (cs : List Char) : List Char := if cs.contains '\n' then ['\n'] else []

/-- Between three double quotes. -/
def multilineBasic (cs : List Char) : List Char :=
  ['"', '"', '"'] ++ lineStart cs ++ multilineBody 0 cs ++ ['"', '"', '"']

/-- Between three single quotes. -/
def multilineLiteral (cs : List Char) : List Char :=
  ['\'', '\'', '\''] ++ lineStart cs ++ cs ++ ['\'', '\'', '\'']

/-- Between double quotes. -/
def basic (cs : List Char) : List Char := '"' :: cs.flatMap escape ++ ['"']

/-- The text as a string of the format. -/
def quoted (s : String) : String :=
  let cs := s.toList
  let hasControl := cs.any isControl
  let hasNewline := cs.contains '\n'
  let hasBackslash := cs.contains '\\'
  let singles := longestRun '\'' 0 cs
  let doubles := longestRun '"' 0 cs
  String.ofList <|
    if !hasControl && !hasBackslash && doubles == 0 && !hasNewline then basic cs
    else if !hasControl && singles == 0 && !hasNewline then '\'' :: cs ++ ['\'']
    else if !hasControl && !hasBackslash && doubles ≤ 2 then multilineBasic cs
    else if !hasControl && singles ≤ 2 then multilineLiteral cs
    else if hasNewline then multilineBasic cs
    else basic cs

example : quoted "it's" = "\"it's\"" := by decide +kernel
example : quoted "a\\b" = "'a\\b'" := by decide +kernel

end BuildAhead.Toml
