import SampleTypes.Text.Hex
import SampleTypes.Number.Decimal
import SampleTypes.Sorting
import SampleTypes.Value

/-!
Writing JSON on one line, with a blank after each comma and colon. Object entries stand in their own
order or sorted by name; strings are written in ASCII or with their characters as they are, and a
surrogate that stands alone is escaped or, in the second case, left as it is.
-/

namespace SampleTypes.Json

inductive Charset where
  | ascii
  | unicode
  deriving DecidableEq, Repr

def unitEscape (unit : Nat) : List Char := '\\' :: 'u' :: Text.hexFixed 4 unit

def unicodeEscape (c : Char) : List Char :=
  if c.toNat < 0x10000 then unitEscape c.toNat
  else
    let offset := c.toNat - 0x10000
    unitEscape (0xD800 + offset / 0x400) ++ unitEscape (0xDC00 + offset % 0x400)

def isVisibleAscii (c : Char) : Bool := decide (' ' ≤ c) && decide (c ≤ '~')

def escapeChar (charset : Charset) (c : Char) : List Char :=
  match c with
  | '"' => ['\\', '"']
  | '\\' => ['\\', '\\']
  | '\n' => ['\\', 'n']
  | '\r' => ['\\', 'r']
  | '\t' => ['\\', 't']
  | '\x08' => ['\\', 'b']
  | '\x0C' => ['\\', 'f']
  | c =>
    let plain := match charset with
      | .ascii => isVisibleAscii c
      | .unicode => decide (' ' ≤ c)
    if plain then [c] else unicodeEscape c

def escapePoint (charset : Charset) : Point → List Char
  | .char c => escapeChar charset c
  | .surrogate offset => unitEscape (0xD800 + offset)

def quoteChars (charset : Charset) (text : Points) : List Char :=
  '"' :: text.flatMap (escapePoint charset) ++ ['"']

def quote (s : Str) : String := String.ofList (quoteChars .ascii s.points)

def rawPoint : Point → Points
  | .char c => (escapeChar .unicode c).map .char
  | .surrogate offset => [.surrogate offset]

def quotePoints (text : Points) : Points := .char '"' :: text.flatMap rawPoint ++ [.char '"']

inductive EntryOrder where
  | given
  | sorted
  deriving DecidableEq, Repr

def arrayText (items : List String) : String := "[" ++ ", ".intercalate items ++ "]"

def objectText (order : EntryOrder) (entries : List (Str × String)) : String :=
  let arranged := match order with
    | .given => entries
    | .sorted => sortByName entries
  let written := arranged.map fun (name, text) => quote name ++ ": " ++ text
  "\x7b" ++ ", ".intercalate written ++ "\x7d"

def floatText (x : Binary64) : String := x.text "NaN" "Infinity"

mutual

/-- A foreign value is written as the name of its type. -/
def write (order : EntryOrder) : Value → String
  | .null => "null"
  | .bool b => if b then "true" else "false"
  | .int i => toString i
  | .float x => floatText x
  | .string s => quote s
  | .list items => arrayText (writeItems order items)
  | .object entries => objectText order (writeEntries order entries)
  | .foreign typeName => quote typeName

def writeItems (order : EntryOrder) : List Value → List String
  | [] => []
  | item :: rest => write order item :: writeItems order rest

def writeEntries (order : EntryOrder) : List (Key × Value) → List (Str × String)
  | [] => []
  | (key, v) :: rest => (key.text, write order v) :: writeEntries order rest

end

end SampleTypes.Json
