import SampleTypes.Json.Lexer
import SampleTypes.Value

/-!
Reading JSON. A `State` holds the containers that are open and what may come next; `State.step`
takes one token. `read` runs it over the tokens of a text, and `State.finish` says whether the text
may end there. A repeated name keeps its first place in an object and its last value.
-/

namespace SampleTypes.Json

/-- An open container around the value that is being read: a list with the items before it, the
latest first, or an object with the entries before it and the value's name. -/
inductive Frame where
  | item (before : List Value)
  | member (before : List (Key × Value)) (name : Str)
  deriving Repr

inductive Expected where
  | value
  | firstItem
  | name (before : List (Key × Value)) (mayClose : Bool)
  | colon (before : List (Key × Value)) (name : Str)
  | afterValue (v : Value)
  deriving Repr

structure State where
  frames : List Frame
  expected : Expected
  deriving Repr

def State.start : State := ⟨[], .value⟩

def State.beginValue (frames : List Frame) : Token → Except Fault State
  | .null => .ok ⟨frames, .afterValue .null⟩
  | .bool b => .ok ⟨frames, .afterValue (.bool b)⟩
  | .int i => .ok ⟨frames, .afterValue (.int i)⟩
  | .float x => .ok ⟨frames, .afterValue (.float x)⟩
  | .string s => .ok ⟨frames, .afterValue (.string s)⟩
  | .openBracket => .ok ⟨frames, .firstItem⟩
  | .openBrace => .ok ⟨frames, .name [] true⟩
  | .broken fault => .error fault
  | _ => .error (.malformed .missingValue)

def State.readName (frames : List Frame) (before : List (Key × Value)) (mayClose : Bool) :
    Token → Except Fault State
  | .string name => .ok ⟨frames, .colon before name⟩
  | .broken (.malformed cause) => .error (.malformed cause)
  | .closeBrace =>
    if mayClose then .ok ⟨frames, .afterValue (.object before)⟩
    else .error (.malformed .missingName)
  | _ => .error (.malformed .missingName)

def State.resume (v : Value) : List Frame → Token → Except Fault State
  | [], _ => .error (.malformed .extraData)
  | .item before :: frames, .comma => .ok ⟨.item (v :: before) :: frames, .value⟩
  | .item before :: frames, .closeBracket => .ok ⟨frames, .afterValue (.list (v :: before).reverse)⟩
  | .member before name :: frames, .comma =>
    .ok ⟨frames, .name (Entries.put (.name name) v before) false⟩
  | .member before name :: frames, .closeBrace =>
    .ok ⟨frames, .afterValue (.object (Entries.put (.name name) v before))⟩
  | _ :: _, _ => .error (.malformed .missingComma)

def State.step (state : State) (token : Token) : Except Fault State :=
  match state.expected with
  | .value => State.beginValue state.frames token
  | .firstItem =>
    if token = .closeBracket then .ok ⟨state.frames, .afterValue (.list [])⟩
    else State.beginValue (.item [] :: state.frames) token
  | .name before mayClose => State.readName state.frames before mayClose token
  | .colon before name =>
    if token = .colon then .ok ⟨.member before name :: state.frames, .value⟩
    else .error (.malformed .missingColon)
  | .afterValue v => State.resume v state.frames token

def State.finish (state : State) : Except Fault Value :=
  match state.expected, state.frames with
  | .afterValue v, [] => .ok v
  | .afterValue _, _ :: _ => .error (.malformed .missingComma)
  | .value, _ | .firstItem, _ => .error (.malformed .missingValue)
  | .name _ _, _ => .error (.malformed .missingName)
  | .colon _ _, _ => .error (.malformed .missingColon)

def byteOrderMark : Char := '\uFEFF'

def read (text : List Char) : Except Fault Value :=
  if text.head? = some byteOrderMark then .error (.malformed .byteOrderMark)
  else do (← (lex text).foldlM State.step .start).finish

end SampleTypes.Json
