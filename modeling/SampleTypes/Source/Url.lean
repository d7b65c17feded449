import SampleTypes.Text.Hex
import SampleTypes.Text.Quoted

/-!
Splitting a source into scheme, host part and path. A scheme is a letter followed by letters,
digits, `+`, `-` and `.` up to the first colon; a host part follows two slashes. Brackets in it must
hold an IPv6 address, and none of its characters may look like one that ends it.
-/

namespace SampleTypes

structure Url where
  scheme : String
  host : String
  path : String
  deriving DecidableEq, Repr

inductive UrlError where
  | unmatchedBracket
  | badFutureAddress
  | ipv4InBrackets
  | notAnAddress (host : String)
  | misleadingHost (host : String)
  deriving DecidableEq, Repr

def UrlError.message : UrlError → String
  | .unmatchedBracket => "Invalid IPv6 URL"
  | .badFutureAddress => "IPvFuture address is invalid"
  | .ipv4InBrackets => "An IPv4 address cannot be in brackets"
  | .notAnAddress host => Text.quoted host ++ " does not appear to be an IPv4 or IPv6 address"
  | .misleadingHost host =>
    "netloc '" ++ host ++ "' contains invalid characters under NFKC normalization"

namespace Url

def splitAt (isEnd : Char → Bool) (text : List Char) : List Char × List Char :=
  (text.takeWhile (!isEnd ·), text.dropWhile (!isEnd ·))

/-- The parts between separators, always at least one. -/
def splitOn (separator : Char) : List Char → List (List Char)
  | [] => [[]]
  | c :: rest =>
    if c = separator then [] :: splitOn separator rest
    else match splitOn separator rest with
      | [] => [[c]]
      | part :: parts => (c :: part) :: parts

/-! Addresses -/

def isOctet (text : List Char) : Bool :=
  !text.isEmpty && text.all Char.isDigit && text.length ≤ 3 &&
    (text = ['0'] || text.head? != some '0') &&
    decide (text.foldl (fun n c => n * 10 + (c.toNat - 48)) 0 ≤ 255)

def isIpv4 (text : List Char) : Bool :=
  let parts := splitOn '.' text
  parts.length == 4 && parts.all isOctet

def isGroup (text : List Char) : Bool :=
  !text.isEmpty && text.length ≤ 4 && text.all fun c => (Text.hexValue? c).isSome

/-- The places, other than the first and the last, of empty groups. -/
def gaps (parts : List (List Char)) : List Nat :=
  (List.range parts.length).filter fun i =>
    0 < i && i + 1 < parts.length && (parts[i]?.map List.isEmpty).getD false

/-- Eight groups, or fewer around one gap. A gap at an end leaves that end empty too. -/
def isGroupSequence (parts : List (List Char)) : Bool :=
  match gaps parts with
  | [] => parts.length == 8 && parts.all isGroup
  | [gap] =>
    let before := parts.take gap
    let after := parts.drop (gap + 1)
    let before := if before = [[]] then [] else before
    let after := if after = [[]] then [] else after
    before.length + after.length ≤ 7 && before.all isGroup && after.all isGroup
  | _ => false

/-- An IPv6 address without a zone. Its last two groups may be written as an IPv4 address. -/
def isIpv6Groups (text : List Char) : Bool :=
  let parts := splitOn ':' text
  let last := parts.getLast?.getD []
  let groups := if last.contains '.' then parts.dropLast ++ [['0'], ['0']] else parts
  3 ≤ parts.length && (!last.contains '.' || isIpv4 last) && groups.length ≤ 9 &&
    isGroupSequence groups

def isIpv6 (text : List Char) : Bool :=
  let (address, zone) := splitAt (· = '%') text
  !text.contains '/' && isIpv6Groups address &&
    (zone.isEmpty || (1 < zone.length && !(zone.drop 1).contains '%'))

def isFutureAddress (text : List Char) : Bool :=
  let (version, rest) := splitAt (· = '.') (text.drop 1)
  !version.isEmpty && version.all (fun c => (Text.hexValue? c).isSome) && 1 < rest.length

def checkBracketed (host : List Char) : Except UrlError Unit :=
  if host.head? = some 'v' then
    if isFutureAddress host then .ok () else .error .badFutureAddress
  else if isIpv4 host then .error .ipv4InBrackets
  else if isIpv6 host then .ok ()
  else .error (.notAnAddress (String.ofList host))

def checkBrackets (host : List Char) : Except UrlError Unit :=
  match host.contains '[', host.contains ']' with
  | false, false => .ok ()
  | true, true => checkBracketed (splitAt (· = ']') ((splitAt (· = '[') host).2.drop 1)).1
  | _, _ => .error .unmatchedBracket

/-- Characters beyond ASCII whose compatibility form holds one of `/ ? # @ :`. -/
def misleadingCodes : List Nat :=
  [0x2047, 0x2048, 0x2049, 0x2100, 0x2101, 0x2105, 0x2106, 0x2A74, 0xFE13, 0xFE16, 0xFE55, 0xFE56,
   0xFE5F, 0xFE6B, 0xFF03, 0xFF0F, 0xFF1A, 0xFF1F, 0xFF20]

def checkMisleading (host : List Char) : Except UrlError Unit :=
  if host.any fun c => misleadingCodes.contains c.toNat then
    .error (.misleadingHost (String.ofList host))
  else .ok ()

/-! Splitting -/

def isSchemeChar (c : Char) : Bool := c.isAlphanum || c = '+' || c = '-' || c = '.'

def splitScheme (text : List Char) : List Char × List Char :=
  let (scheme, rest) := splitAt (· = ':') text
  match scheme, rest with
  | c :: _, _ :: afterColon =>
    if c.isAlpha && scheme.all isSchemeChar then (scheme.map Char.toLower, afterColon) else ([], text)
  | _, _ => ([], text)

/-- What may not stand in a URL is dropped: control characters and blanks in front, and tabs and
line ends anywhere. -/
def clean (text : List Char) : List Char :=
  (text.dropWhile fun c => c.toNat ≤ 0x20).filter fun c => !(c = '\t' || c = '\r' || c = '\n')

def parse (source : String) : Except UrlError Url := do
  let (scheme, rest) := splitScheme (clean source.toList)
  let (host, afterHost) := match rest with
    | '/' :: '/' :: text => splitAt (fun c => c = '/' || c = '?' || c = '#') text
    | text => ([], text)
  checkBrackets host
  checkMisleading host
  let path := (splitAt (fun c => c = '?' || c = '#') afterHost).1
  return ⟨String.ofList scheme, String.ofList host, String.ofList path⟩

end Url

end SampleTypes
