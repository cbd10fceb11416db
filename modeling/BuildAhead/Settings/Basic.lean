import BuildAhead.BuildError
import BuildAhead.Collection.Dict
import BuildAhead.Json.Basic
import BuildAhead.Profile

set_option autoImplicit false

/-!
# Settings: values and lookup

The configuration of a build: dotted keys with a text or a list of texts each. Keys are compared
without the blanks around them and without regard to the case of ASCII letters. A text can be read
as a list, an integer, a switch or a profile; what a missing key means is the caller's default.
-/

namespace BuildAhead

/-- A configured value. -/
inductive SettingValue where
  | scalar (text : String)
  | list (texts : List String)
  deriving DecidableEq, Repr, Inhabited

/-- A value as JSON: a string or an array of strings. -/
def SettingValue.toJson : SettingValue → Json
  | .scalar text => .text text
  | .list texts => .ofNames texts

/-- A configuration. -/
structure Settings where
  values : Dict SettingValue := ∅
  deriving DecidableEq, Repr, Inhabited

namespace Settings

/-- The runtime profile. -/
def runtimeKey : String := "runtime"

/-- The namespace of the generated units. -/
def packageKey : String := "generated.package"

/-- The form of a key under which its value is kept. -/
def normalKey (key : String) : String := Text.asciiLower (Text.trim key)

/-- The configuration of these values; of two keys with one form the later counts. -/
def ofValues (values : List (String × SettingValue)) : Settings :=
  ⟨.ofList (values.map fun (k, v) => (normalKey k, v))⟩

/-- The configuration of these texts; of two keys with one form the later counts. -/
def ofPairs (pairs : List (String × String)) : Settings :=
  ofValues (pairs.map fun (k, v) => (k, .scalar v))

/-- The configuration with these texts in place of what their keys had. -/
def override (s : Settings) (pairs : List (String × String)) : Settings :=
  ⟨pairs.foldl (fun d (k, v) => d.insert (normalKey k) (.scalar v)) s.values⟩

/-- The value of a key. -/
def raw? (s : Settings) (key : String) : Option SettingValue := s.values.get? (normalKey key)

/-- Whether the key has a value. -/
def contains (s : Settings) (key : String) : Bool := (s.raw? key).isSome

/-- The text of a value; the texts of a list are put together with commas. -/
def textOf : SettingValue → String
  | .scalar text => text
  | .list texts => Text.joined "," texts

/-- The text of a key. -/
def text? (s : Settings) (key : String) : Option String := (s.raw? key).map textOf

/-- The text of a key that must be set and not blank. -/
def require (s : Settings) (key : String) : Except BuildError String :=
  match s.text? key with
  | some value => if Text.isAllBlank value then .error (.missingKey key) else .ok value
  | none => .error (.missingKey key)

/-- The characters that separate the items of a list in one text. -/
def isListSeparator (c : Char) : Bool := c == ',' || c == ';'

/-- The texts without the blanks around them, those that are all blank left out. -/
def trimmedItems (items : List String) : List String :=
  (items.map Text.trim).filter fun item => !item.isEmpty

/-- The items of a list written as one text. -/
def splitList (text : String) : List String := trimmedItems (Text.pieces isListSeparator text)

/-- The items of a value read as a list. -/
def itemsOf : SettingValue → List String
  | .list texts => trimmedItems texts
  | .scalar text => splitList text

/-- The items of a key read as a list; none when it is not set. -/
def items (s : Settings) (key : String) : List String :=
  match s.raw? key with
  | none => []
  | some value => itemsOf value

/-- Whether a text means yes: `true` in any case, with blanks around it. Every other text means
no. -/
def isTrue (text : String) : Bool := Text.asciiLower (Text.trim text) == "true"

/-- The switch of a key. -/
def bool (s : Settings) (key : String) (default : Bool) : Bool :=
  match s.text? key with
  | some text => isTrue text
  | none => default

/-- The value of a list of decimal digits, at least one. -/
def digitsValue? : List Char → Option Nat
  | [] => none
  | cs =>
    if cs.all fun c => '0' ≤ c && c ≤ '9' then
      some (cs.foldl (fun n c => n * 10 + (c.toNat - 48)) 0)
    else none

/-- The integer that a text writes in base ten, with or without a sign, within 64 bits. -/
def parseInt? (text : String) : Option Int := do
  let n ←
    match text.toList with
    | '-' :: cs => (digitsValue? cs).map fun n => -(n : Int)
    | '+' :: cs => (digitsValue? cs).map Int.ofNat
    | cs => (digitsValue? cs).map Int.ofNat
  if Json.inInt64 n then some n else none

/-- The integer of a key. -/
def int (s : Settings) (key : String) (default : Int) : Except BuildError Int :=
  match s.text? key with
  | none => .ok default
  | some text =>
    match parseInt? (Text.trim text) with
    | some n => .ok n
    | none =>
      .error (.configuration ("Value '" ++ text ++ "' for key '" ++ key ++ "' is not an integer"))

/-- Whether a feature is switched on; features that are not configured are off. -/
def featureEnabled (s : Settings) (feature : String) : Bool :=
  s.bool (Names.switch feature) false

/-- The configured profile, the just-in-time one when none is configured. -/
def profile (s : Settings) : Except BuildError Profile :=
  match s.text? runtimeKey with
  | none => .ok .jit
  | some text =>
    match Profile.parse? text with
    | some p => .ok p
    | none => .error (.unknownProfile text)

example : splitList " a ;b,, c" = ["a", "b", "c"] := by decide +kernel
example : parseInt? "+7" = some 7 ∧ parseInt? "-" = none ∧ parseInt? "1_0" = none := by
  decide +kernel

end Settings

end BuildAhead
