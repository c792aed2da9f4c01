import ChainArchive.Text.Split
import ChainArchive.Url.Host

namespace ChainArchive

open ChainArchive.Text

structure Url where
  scheme : List Char
  netloc : List Char
  path : List Char
  params : List Char
  query : List Char
  fragment : List Char
  deriving DecidableEq, Repr

namespace Url

inductive Fault where
  | misplacedBracket
  | badFutureAddress
  | notAnAddress (host : List Char)
  | bracketedIpv4
  | hiddenDelimiter (netloc : List Char)
  deriving DecidableEq, Repr

def Fault.message : Fault → String
  | .misplacedBracket => "Invalid IPv6 URL"
  | .badFutureAddress => "IPvFuture address is invalid"
  | .notAnAddress host =>
    quoted (String.ofList host) ++ " does not appear to be an IPv4 or IPv6 address"
  | .bracketedIpv4 => "An IPv4 address cannot be in brackets"
  | .hiddenDelimiter netloc =>
    "netloc '" ++ String.ofList netloc ++ "' contains invalid characters under NFKC normalization"

def schemesWithParams : List String :=
  ["", "ftp", "hdl", "prospero", "http", "imap", "https", "shttp", "rtsp", "rtsps", "rtspu",
    "sip", "sips", "mms", "sftp", "tel"]

def schemesWithNetloc : List String :=
  ["ftp", "http", "gopher", "nntp", "telnet", "imap", "wais", "file", "mms", "https",
    "shttp", "snews", "prospero", "rtsp", "rtsps", "rtspu", "rsync", "svn", "svn+ssh", "sftp",
    "nfs", "git", "git+ssh", "ws", "wss"]

/-- Characters that become one of `/ ? # @ :`, or a text with one of them, when a host name is
normalised. -/
def hidingDelimiter : List Nat :=
  [0x2047, 0x2048, 0x2049, 0x2100, 0x2101, 0x2105, 0x2106, 0x2a74, 0xfe13, 0xfe16, 0xfe55,
    0xfe56, 0xfe5f, 0xfe6b, 0xff03, 0xff0f, 0xff1a, 0xff1f, 0xff20]

def isSchemeChar (c : Char) : Bool :=
  c.isAlphanum || c == '+' || c == '-' || c == '.'

def readScheme (cs : List Char) : List Char × List Char :=
  match cut ':' cs with
  | (before, some rest) =>
    match before with
    | first :: _ =>
      if first.isAlpha && before.all isSchemeChar then (before.map Char.toLower, rest) else ([], cs)
    | [] => ([], cs)
  | _ => ([], cs)

def endsNetloc (c : Char) : Bool := c == '/' || c == '?' || c == '#'

def readNetloc : List Char → List Char × List Char
  | '/' :: '/' :: rest =>
    (rest.takeWhile (fun c => !endsNetloc c), rest.dropWhile (fun c => !endsNetloc c))
  | cs => ([], cs)

def checkHost (host : List Char) : Except Fault Unit :=
  if host.head? == some 'v' then
    if isFutureAddress host then .ok () else .error .badFutureAddress
  else if isIpv4 host then .error .bracketedIpv4
  else if isIpv6 host then .ok ()
  else .error (.notAnAddress host)

def hostAndPort (netloc : List Char) : List Char :=
  (netloc.reverse.takeWhile (· != '@')).reverse

/-- The host of a network location with brackets. If they are not part of the user's name, nothing
stands in front of them, and only a port behind. -/
def bracketedHost (netloc : List Char) : Except Fault (List Char) :=
  let place := hostAndPort netloc
  match cut '[' place with
  | (front, some rest) =>
    let (host, port) := cut ']' rest
    match front, port.getD [] with
    | [], [] | [], ':' :: _ => .ok host
    | _, _ => .error .misplacedBracket
  | _ => .ok (cut ':' place).1

def checkNetloc (netloc : List Char) : Except Fault Unit := do
  if netloc.contains '[' != netloc.contains ']' then throw .misplacedBracket
  if netloc.contains '[' then
    let host ← bracketedHost netloc
    checkHost host
  if netloc.any (fun c => hidingDelimiter.contains c.toNat) then throw (.hiddenDelimiter netloc)

/-- Splits the parameters off the last segment of a path. -/
def readParams (path : List Char) : List Char × List Char :=
  let segment := (path.reverse.takeWhile (· != '/')).reverse
  match cut ';' segment with
  | (before, some params) => (path.take (path.length - segment.length) ++ before, params)
  | _ => (path, [])

/-- The text that is read: without controls and blanks in front, and without tabs and line ends
anywhere. -/
def clean (cs : List Char) : List Char :=
  (cs.dropWhile (·.toNat ≤ 0x20)).filter fun c => !(c == '\t' || c == '\r' || c == '\n')

def read (s : String) : Except Fault Url := do
  let (scheme, rest) := readScheme (clean s.toList)
  let (netloc, rest) := readNetloc rest
  let (rest, fragment) := cut '#' rest
  let (path, query) := cut '?' rest
  checkNetloc netloc
  let (path, params) :=
    if schemesWithParams.contains (String.ofList scheme) then readParams path else (path, [])
  return ⟨scheme, netloc, path, params, query.getD [], fragment.getD []⟩

def marked (mark : Char) (part : List Char) : List Char :=
  if part.isEmpty then [] else mark :: part

def writePath (u : Url) : List Char :=
  let path := u.path ++ marked ';' u.params
  if !u.netloc.isEmpty || schemesWithNetloc.contains (String.ofList u.scheme) ||
      startsWith ['/', '/'] path then
    '/' :: '/' :: u.netloc ++
      (if path.isEmpty || path.head? == some '/' then path else '/' :: path)
  else path

def write (u : Url) : String :=
  String.ofList ((if u.scheme.isEmpty then [] else u.scheme ++ [':']) ++ u.writePath ++
    marked '?' u.query ++ marked '#' u.fragment)

end Url

end ChainArchive
