import SampleTypes.Json.Fault
import SampleTypes.Number.Decimal
import SampleTypes.Text.Hex
import SampleTypes.Text.Points

/-!
Tokens of JSON text. `scan` reads the token that starts with a given character. It never fails: what
starts no token is `stray`, and a string or number that cannot be read is `broken` and takes all the
text that is left. A reader that meets one of them where it wants a value knows what to report.
-/

namespace SampleTypes.Json

inductive Token where
  | openBracket
  | closeBracket
  | openBrace
  | closeBrace
  | comma
  | colon
  | null
  | bool (b : Bool)
  | int (i : Int)
  | float (x : Binary64)
  | string (s : Str)
  | stray (c : Char)
  | broken (fault : Fault)
  deriving DecidableEq, Repr

def isSpace (c : Char) : Bool := c = ' ' || c = '\t' || c = '\n' || c = '\r'

def isDigit (c : Char) : Bool := decide ('0' ≤ c) && decide (c ≤ '9')

def readDigits (digits : List Char) : Nat :=
  digits.foldl (fun n c => n * 10 + (c.toNat - 48)) 0

/-! Strings -/

def simpleEscape? : Char → Option Char
  | '"' => some '"'
  | '\\' => some '\\'
  | '/' => some '/'
  | 'b' => some '\x08'
  | 'f' => some '\x0C'
  | 'n' => some '\n'
  | 'r' => some '\r'
  | 't' => some '\t'
  | _ => none

def readHex? (digits : List Char) : Option Nat :=
  digits.foldlM (fun n c => (Text.hexValue? c).map (n * 16 + ·)) 0

def consUnit (unit : Nat) :
    Except Malformed (List Nat × List Char) → Except Malformed (List Nat × List Char)
  | .ok (units, rest) => .ok (unit :: units, rest)
  | .error cause => .error cause

/-- The code units of a string up to its closing quote, and the text after that quote. A `\u`
escape is only read when some character follows its four digits. -/
def scanUnits : List Char → Except Malformed (List Nat × List Char)
  | [] => .error .unterminatedString
  | '"' :: rest => .ok ([], rest)
  | ['\\'] => .error .unterminatedString
  | '\\' :: 'u' :: a :: b :: c :: d :: rest =>
    match rest, readHex? [a, b, c, d] with
    | [], _ => .error .brokenUnicodeEscape
    | _ :: _, none => .error .brokenUnicodeEscape
    | _ :: _, some unit => consUnit unit (scanUnits rest)
  | '\\' :: 'u' :: _ => .error .brokenUnicodeEscape
  | '\\' :: c :: rest =>
    match simpleEscape? c with
    | none => .error .unknownEscape
    | some plain => consUnit plain.toNat (scanUnits rest)
  | c :: rest =>
    if c < ' ' then .error .controlCharacter
    else consUnit c.toNat (scanUnits rest)

def isHighSurrogate (unit : Nat) : Bool := decide (0xD800 ≤ unit) && decide (unit < 0xDC00)

def isLowSurrogate (unit : Nat) : Bool := decide (0xDC00 ≤ unit) && decide (unit < 0xE000)

/-- Joins surrogate pairs. A surrogate that stands alone stays. -/
def joinUnits : List Nat → Points
  | [] => []
  | [unit] => [.ofCode unit]
  | unit :: next :: rest =>
    if isHighSurrogate unit && isLowSurrogate next then
      .char (Char.ofNat (0x10000 + (unit - 0xD800) * 0x400 + (next - 0xDC00))) :: joinUnits rest
    else .ofCode unit :: joinUnits (next :: rest)

theorem isHigh_ofCode (unit : Nat) : (Point.ofCode unit).isHigh = isHighSurrogate unit := by
  rw [Bool.eq_iff_iff, isHighSurrogate, Bool.and_eq_true, decide_eq_true_eq, decide_eq_true_eq]
  unfold Point.ofCode
  split <;> simp [Point.isHigh] <;> omega

theorem isLow_ofCode (unit : Nat) : (Point.ofCode unit).isLow = isLowSurrogate unit := by
  rw [Bool.eq_iff_iff, isLowSurrogate, Bool.and_eq_true, decide_eq_true_eq, decide_eq_true_eq]
  unfold Point.ofCode
  split <;> simp [Point.isLow] <;> omega

theorem exists_joinUnits_cons (unit : Nat) (rest : List Nat) :
    ∃ p text, joinUnits (unit :: rest) = p :: text ∧ (p.isLow = true → isLowSurrogate unit = true) := by
  cases rest with
  | nil => exact ⟨_, _, rfl, fun low => isLow_ofCode unit ▸ low⟩
  | cons next rest =>
    unfold joinUnits
    split
    · exact ⟨_, _, rfl, fun low => nomatch low⟩
    · exact ⟨_, _, rfl, fun low => isLow_ofCode unit ▸ low⟩

theorem isJoined_joinUnits (units : List Nat) : (joinUnits units).isJoined = true := by
  fun_induction joinUnits units with
  | case1 | case2 => rfl
  | case3 unit next rest pair ih =>
    cases spelled : joinUnits rest with
    | nil => rfl
    | cons p text => rwa [spelled] at ih
  | case4 unit next rest alone ih =>
    obtain ⟨p, text, spelled, low⟩ := exists_joinUnits_cons next rest
    rw [spelled] at ih ⊢
    rw [Points.isJoined, ih, Bool.and_true, Bool.not_eq_true', Bool.eq_false_iff, isHigh_ofCode]
    intro pair
    rw [Bool.and_eq_true] at alone pair
    exact alone ⟨pair.1, low pair.2⟩

def strOfUnits (units : List Nat) : Str := ⟨joinUnits units, isJoined_joinUnits units⟩

/-! Numbers -/

def scanInteger : List Char → Option (List Char × List Char)
  | [] => none
  | c :: rest =>
    if c = '0' then some ([c], rest)
    else if isDigit c then some (c :: rest.takeWhile isDigit, rest.dropWhile isDigit)
    else none

def scanFraction (text : List Char) : Option (List Char × List Char) :=
  match text with
  | '.' :: rest =>
    if (rest.takeWhile isDigit).isEmpty then none
    else some (rest.takeWhile isDigit, rest.dropWhile isDigit)
  | _ => none

def scanSign : List Char → Bool × List Char
  | '-' :: rest => (true, rest)
  | '+' :: rest => (false, rest)
  | text => (false, text)

def scanExponent (text : List Char) : Option (Int × List Char) :=
  match text with
  | [] => none
  | c :: rest =>
    if c = 'e' || c = 'E' then
      let (negative, unsigned) := scanSign rest
      let digits := unsigned.takeWhile isDigit
      if digits.isEmpty then none
      else some (Binary64.withSign negative (readDigits digits), unsigned.dropWhile isDigit)
    else none

/-- Digits alone are an integer. With a fraction or an exponent they are a double. -/
def numberToken (negative : Bool) (integer : List Char) (fraction : Option (List Char))
    (exponent : Option Int) : Token :=
  match fraction, exponent with
  | none, none =>
    if maxIntegerDigits < integer.length then .broken (.integerTooLong integer.length)
    else .int (Binary64.withSign negative (readDigits integer))
  | _, _ =>
    let digits := fraction.getD []
    .float (Decimal.nearest
      ⟨negative, readDigits (integer ++ digits), exponent.getD 0 - digits.length⟩)

def optionally {α : Type} (scan : List Char → Option (α × List Char)) (text : List Char) :
    Option α × List Char :=
  match scan text with
  | some (part, rest) => (some part, rest)
  | none => (none, text)

def scanNumber (negative : Bool) (text : List Char) : Option (Token × List Char) := do
  let (integer, afterInteger) ← scanInteger text
  let (fraction, afterFraction) := optionally scanFraction afterInteger
  let (exponent, rest) := optionally scanExponent afterFraction
  return (numberToken negative integer fraction exponent, rest)

/-! Tokens -/

def dropWord? (word text : List Char) : Option (List Char) :=
  if word.isPrefixOf text then some (text.drop word.length) else none

def literals : List (Char × String × Token) :=
  [('n', "ull", .null), ('t', "rue", .bool true), ('f', "alse", .bool false),
   ('N', "aN", .float .nan), ('I', "nfinity", .float (.infinity false)),
   ('-', "Infinity", .float (.infinity true))]

def scanLiteral (c : Char) (text : List Char) : Option (Token × List Char) :=
  literals.findSome? fun (first, word, token) =>
    if c = first then (dropWord? word.toList text).map (token, ·) else none

def scanString (text : List Char) : Token × List Char :=
  match scanUnits text with
  | .ok (units, rest) => (.string (strOfUnits units), rest)
  | .error cause => (.broken (.malformed cause), [])

def scanPlain (c : Char) (text : List Char) : Token × List Char :=
  match scanLiteral c text with
  | some found => found
  | none =>
    match if c = '-' then scanNumber true text else scanNumber false (c :: text) with
    | some found => found
    | none => (.stray c, text)

def scan (c : Char) (text : List Char) : Token × List Char :=
  match c with
  | '[' => (.openBracket, text)
  | ']' => (.closeBracket, text)
  | '{' => (.openBrace, text)
  | '}' => (.closeBrace, text)
  | ',' => (.comma, text)
  | ':' => (.colon, text)
  | '"' => scanString text
  | c => scanPlain c text

end SampleTypes.Json
