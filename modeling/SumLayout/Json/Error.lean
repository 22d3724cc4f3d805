import SumLayout.Decimal.Shortest
import SumLayout.Text.Joined
import SumLayout.Text.Quoted

/-!
# What is wrong with a text

A typed reader of JSON goes through a text once, from left to right, and reports the first thing
that is wrong. Either the text **ends** too early, or it is **malformed** and no JSON at all, or it
is JSON of which some part does not **fit** what is to be read.
-/

namespace SumLayout.Json

/-- What a text ended in. -/
inductive Enclosure where
  | value
  | list
  | object
  | string
  deriving DecidableEq, Repr

def Enclosure.text : Enclosure → String
  | value => "a value"
  | list => "a list"
  | object => "an object"
  | string => "a string"

/-- Why a text is not JSON. -/
inductive Malformed where
  | expectedValue
  | trailingCharacters
  | trailingComma
  | keyNotString
  | expectedColon
  | expectedCommaInList
  | expectedCommaInObject
  | misspeltWord
  | invalidNumber
  | numberOutOfRange
  | invalidEscape
  | loneSurrogate
  | unfinishedSurrogate
  | controlCharacter
  /-- Lists and objects are nested too deeply. -/
  | tooDeep
  deriving DecidableEq, Repr

def Malformed.text : Malformed → String
  | expectedValue => "expected value"
  | trailingCharacters => "trailing characters"
  | trailingComma => "trailing comma"
  | keyNotString => "key must be a string"
  | expectedColon => "expected `:`"
  | expectedCommaInList => "expected `,` or `]`"
  | expectedCommaInObject => "expected `,` or `\x7d`"
  | misspeltWord => "expected ident"
  | invalidNumber => "invalid number"
  | numberOutOfRange => "number out of range"
  | invalidEscape => "invalid escape"
  | loneSurrogate => "lone leading surrogate in hex escape"
  | unfinishedSurrogate => "unexpected end of hex escape"
  | controlCharacter => "control character (\\u0000-\\u001F) found while parsing a string"
  | tooDeep => "recursion limit exceeded"

/-- A number: whole numbers of at most 64 bits are kept, and all others are doubles. -/
inductive Number where
  | whole (n : Int)
  | double (x : Float)

/-- A value that was met in a place where it does not fit. -/
inductive Found where
  | null
  | bool (b : Bool)
  | number (n : Number)
  | string (s : String)
  | list
  | object

def Number.text : Number → String
  | whole n => "integer `" ++ toString n ++ "`"
  | double x => "floating point `" ++ Decimal.ofFloat x ++ "`"

def Found.text : Found → String
  | null => "null"
  | bool true => "boolean `true`"
  | bool false => "boolean `false`"
  | number n => n.text
  | string s => "string " ++ Text.quoted s
  | list => "sequence"
  | object => "map"

/-- The first thing that is wrong with a text. -/
inductive Error where
  | ended (inside : Enclosure)
  | malformed (why : Malformed)
  /-- A value of another type than what is expected. -/
  | invalidType (found : Found) (expected : String)
  /-- A value of the right type that is out of bounds. -/
  | invalidValue (found : Found) (expected : String)
  /-- A record given as a list that is too short. -/
  | invalidLength (length : Nat) (expected : String)
  | unknownField (key : String) (known : List String)
  | unknownVariant (name : String) (known : List String)
  | missingField (key : String)
  | duplicateField (key : String)

/-- The kinds of errors. -/
inductive Category where
  /-- The text ended too early. -/
  | ended
  /-- The text is not JSON. -/
  | malformed
  /-- The text is JSON that does not fit. -/
  | unfit
  deriving DecidableEq, Repr

/-- Some names, as a choice. -/
def choiceText (names : List String) : String :=
  match names.map fun n => "`" ++ n ++ "`" with
  | [] => "nothing"
  | [a] => a
  | [a, b] => a ++ " or " ++ b
  | all => "one of " ++ Text.joinWith ", " all

namespace Error

def message : Error → String
  | ended inside => "EOF while parsing " ++ inside.text
  | malformed why => why.text
  | invalidType found expected => "invalid type: " ++ found.text ++ ", expected " ++ expected
  | invalidValue found expected => "invalid value: " ++ found.text ++ ", expected " ++ expected
  | invalidLength length expected =>
    "invalid length " ++ toString length ++ ", expected " ++ expected
  | unknownField key known => "unknown field `" ++ key ++ "`, expected " ++ choiceText known
  | unknownVariant name known => "unknown variant `" ++ name ++ "`, expected " ++ choiceText known
  | missingField key => "missing field `" ++ key ++ "`"
  | duplicateField key => "duplicate field `" ++ key ++ "`"

def category : Error → Category
  | ended _ => .ended
  | malformed _ => .malformed
  | _ => .unfit

end Error

end SumLayout.Json
