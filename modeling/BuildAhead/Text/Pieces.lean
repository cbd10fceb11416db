set_option autoImplicit false

/-!
# Text: pieces

Cutting a text at separators and putting pieces together again. `piecesOf` keeps empty pieces, so
a text with `n` separators has `n + 1` pieces.
-/

namespace BuildAhead.Text

/-- The stretches of `cs` between the characters for which `isSeparator` holds. -/
def piecesOf (isSeparator : Char → Bool) : List Char → List (List Char)
  | [] => [[]]
  | c :: cs =>
    match piecesOf isSeparator cs with
    | [] => [[c]]
    | p :: ps => if isSeparator c then [] :: p :: ps else (c :: p) :: ps

theorem piecesOf_ne_nil (isSeparator : Char → Bool) (cs : List Char) :
    piecesOf isSeparator cs ≠ [] := by
  cases cs with
  | nil => simp [piecesOf]
  | cons c cs =>
    simp only [piecesOf]
    split
    · simp
    · split <;> simp

/-- The pieces of a text between separators, empty ones included. -/
def pieces (isSeparator : Char → Bool) (s : String) : List String :=
  (piecesOf isSeparator s.toList).map String.ofList

/-- The pieces of a text between the separators, without the empty ones. -/
def words (isSeparator : Char → Bool) (s : String) : List String :=
  (pieces isSeparator s).filter fun p => !p.isEmpty

/-- What stands before and behind the first separator; none when there is no separator. -/
def splitFirst? (separator : Char) (s : String) : Option (String × String) :=
  match s.toList.span (· != separator) with
  | (_, []) => none
  | (before, _ :: behind) => some (String.ofList before, String.ofList behind)

/-- The texts one after another with `separator` between two of them. -/
def joined (separator : String) : List String → String
  | [] => ""
  | [s] => s
  | s :: rest => s ++ separator ++ joined separator rest

/-- A line without the carriage return that may end it. -/
def withoutReturn (line : List Char) : List Char :=
  match line.reverse with
  | '\r' :: rest => rest.reverse
  | _ => line

/-- The lines of a text. A line ends at a line feed, or at a carriage return and a line feed; a
line feed at the very end of the text begins no further line. -/
def lines (s : String) : List String :=
  let cut := piecesOf (· == '\n') s.toList
  let last := cut.getLast?.getD []
  (cut.dropLast.map fun l => String.ofList (withoutReturn l)) ++
    (if last.isEmpty then [] else [String.ofList last])

/-- Whether `part` stands at the end of `s`. -/
def endsWith (s part : String) : Bool :=
  part.toList.isSuffixOf s.toList

/-- Whether `part` stands at the beginning of `s`. -/
def startsWith (s part : String) : Bool :=
  part.toList.isPrefixOf s.toList

/-- Whether `part` occurs in `s` as a stretch of consecutive characters. -/
def includes (part : List Char) : List Char → Bool
  | [] => part.isEmpty
  | c :: cs => part.isPrefixOf (c :: cs) || includes part cs

/-- The text after the last dot, or all of it when it has no dot. -/
def afterLastDot (s : String) : String :=
  String.ofList ((piecesOf (· == '.') s.toList).getLast?.getD [])

example : pieces (· == ',') "a,,b" = ["a", "", "b"] := by decide +kernel
example : splitFirst? '=' "a=b=c" = some ("a", "b=c") := by decide +kernel
example : joined " -> " ["a", "b", "c"] = "a -> b -> c" := by decide +kernel
example : lines "a\r\n\nb\n" = ["a", "", "b"] := by decide +kernel
example : afterLastDot "a.b.Service" = "Service" := by decide +kernel

end BuildAhead.Text
