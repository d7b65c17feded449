import SampleTypes.Text.Hex
import SampleTypes.Text.Points
import SampleTypes.Text.Printable

/-!
Quoted text, as messages show file names and lists of them. Single quotes are preferred; double
quotes are taken for a text that holds a single quote and no double one.
-/

namespace SampleTypes.Text

def quoteFor (text : Points) : Char :=
  if text.contains (.char '\'') && !text.contains (.char '"') then '"' else '\''

def quotedChar (quote c : Char) : List Char :=
  if c = quote || c = '\\' then ['\\', c]
  else if c = '\n' then ['\\', 'n']
  else if c = '\r' then ['\\', 'r']
  else if c = '\t' then ['\\', 't']
  else if isPrintable c then [c]
  else if c.toNat < 0x100 then '\\' :: 'x' :: hexFixed 2 c.toNat
  else if c.toNat < 0x10000 then '\\' :: 'u' :: hexFixed 4 c.toNat
  else '\\' :: 'U' :: hexFixed 8 c.toNat

def quotedPoint (quote : Char) : Point → List Char
  | .char c => quotedChar quote c
  | .surrogate offset => '\\' :: 'u' :: hexFixed 4 (0xD800 + offset)

def quoted (text : Points) : String :=
  let quote := quoteFor text
  String.ofList (quote :: text.flatMap (quotedPoint quote) ++ [quote])

def quotedList (texts : List String) : String :=
  "[" ++ ", ".intercalate (texts.map fun (text : String) => quoted text) ++ "]"

end SampleTypes.Text
